import TurtleLogo.Proofs.Parse.Definition

set_option autoImplicit false

/-! # Balanced parentheses

When are the parentheses of a list of atoms balanced, if those inside definitions do not count?
`Enclosed` says how such lists are built, with one case that falls out of line: an opening
parenthesis right before `TO` has no partner. Apart from those, the parentheses of an enclosed list
are balanced (`Enclosed.matched`).

What is `TO` is left to a parameter. -/

namespace TurtleLogo

/-! ## Balance -/

namespace Atom

/-- Whether the atom is a parenthesis. -/
def isParen (a : Atom) : Bool :=
  a.isWord "(" || a.isWord ")"

/-- The number of opening parentheses. -/
def openings (ts : List Atom) : Nat :=
  ts.countP (·.isWord "(")

/-- The number of closing parentheses. -/
def closings (ts : List Atom) : Nat :=
  ts.countP (·.isWord ")")

/-- Whether each parenthesis has its partner: none is closed before it is opened, and all that are
opened are closed. -/
structure Balanced (ts : List Atom) : Prop where
  within : ∀ front, front <+: ts → closings front ≤ openings front
  closed : closings ts = openings ts

variable {a : Atom} {ts us : List Atom}

@[simp] theorem openings_nil : openings [] = 0 := rfl

@[simp] theorem closings_nil : closings [] = 0 := rfl

@[simp] theorem openings_cons :
    openings (a :: ts) = openings ts + if a.isWord "(" then 1 else 0 := by
  simp [openings, List.countP_cons]

@[simp] theorem closings_cons :
    closings (a :: ts) = closings ts + if a.isWord ")" then 1 else 0 := by
  simp [closings, List.countP_cons]

@[simp] theorem openings_append : openings (ts ++ us) = openings ts + openings us := by
  simp [openings, List.countP_append]

@[simp] theorem closings_append : closings (ts ++ us) = closings ts + closings us := by
  simp [closings, List.countP_append]

@[simp] theorem isWord_word {text w : String} : (word w).isWord text = (w == text) := rfl

theorem not_isWord_of_isParen (h : a.isParen = false) :
    a.isWord "(" = false ∧ a.isWord ")" = false := by
  simpa [isParen] using h

theorem Balanced.nil : Balanced [] where
  within front hfront := by simp [List.prefix_nil.mp hfront]
  closed := rfl

theorem Balanced.cons (ha : a.isParen = false) (h : Balanced ts) : Balanced (a :: ts) := by
  obtain ⟨hopen, hclose⟩ := not_isWord_of_isParen ha
  refine ⟨fun front hfront => ?_, by simpa [hopen, hclose] using h.closed⟩
  rcases List.prefix_cons_iff.mp hfront with rfl | ⟨front, rfl, htail⟩
  · simp
  · simpa [hopen, hclose] using h.within front htail

theorem Balanced.group (h : Balanced ts) (h' : Balanced us) :
    Balanced (.word "(" :: (ts ++ .word ")" :: us)) := by
  have hts := h.closed
  have hus := h'.closed
  refine ⟨fun front hfront => ?_, by simp; omega⟩
  rcases List.prefix_cons_iff.mp hfront with rfl | ⟨front, rfl, htail⟩
  · simp
  rcases List.prefix_or_prefix_of_prefix htail (List.prefix_append ts _) with hinside | ⟨back, rfl⟩
  · have hle := h.within front hinside
    simp
    omega
  · have hback := (List.prefix_append_right_inj ts).mp htail
    rcases List.prefix_cons_iff.mp hback with rfl | ⟨back, rfl, hbehind⟩
    · simp
      omega
    · have hle := h'.within back hbehind
      simp
      omega

end Atom

/-! ## Outside definitions -/

namespace Parse

/-- The atoms outside definitions. A definition is what is read as one behind an atom that `isTo`
tells to be `TO`; that atom itself stays. -/
def outside (isTo : Atom → Bool) : List Atom → List Atom
  | [] => []
  | a :: ts => a :: outside isTo (if isTo a then (Definition.parse ts).2 else ts)
termination_by ts => ts.length
decreasing_by
  split
  · exact Nat.lt_succ_of_le (Definition.parse_suffix ts).length_le
  · exact Nat.lt_succ_self _

/-- Whether an opening parenthesis before `ts` calls `TO`. -/
def opensDefinition (isTo : Atom → Bool) (a : Atom) (ts : List Atom) : Bool :=
  a.isWord "(" && ts.head?.any isTo

/-- Leaves out the opening parentheses that call `TO`. -/
def withoutStray (isTo : Atom → Bool) : List Atom → List Atom
  | [] => []
  | a :: ts =>
    if opensDefinition isTo a ts then withoutStray isTo ts else a :: withoutStray isTo ts

/-- The number of opening parentheses that call `TO`. -/
def strays (isTo : Atom → Bool) : List Atom → Nat
  | [] => 0
  | a :: ts => strays isTo ts + if opensDefinition isTo a ts then 1 else 0

/-- The parentheses outside definitions match, but for the opening ones that call `TO`. -/
structure Matched (isTo : Atom → Bool) (ts : List Atom) : Prop where
  balanced : Atom.Balanced (withoutStray isTo (outside isTo ts))
  within : ∀ front, front <+: outside isTo ts → Atom.closings front ≤ Atom.openings front
  total : Atom.openings (outside isTo ts)
    = Atom.closings (outside isTo ts) + strays isTo (outside isTo ts)

variable {isTo : Atom → Bool} {a : Atom} {ts us ds : List Atom} {x : String × Definition}

@[simp] theorem outside_nil : outside isTo [] = [] := by
  rw [outside]

theorem outside_cons (h : isTo a = false) : outside isTo (a :: ts) = a :: outside isTo ts := by
  rw [outside, h]
  rfl

theorem outside_definition (h : isTo a = true) (hparse : Definition.parse ds = (.ok x, [])) :
    outside isTo (a :: (ds ++ us)) = a :: outside isTo us := by
  have happend : Definition.parse (ds ++ us) = (.ok x, us) := Definition.parse_append hparse
  rw [outside, h, happend]
  rfl

theorem head?_outside : (outside isTo ts).head? = ts.head? := by
  cases ts with
  | nil => rw [outside_nil]
  | cons a ts => rw [outside]; rfl

theorem opening_of_opensDefinition (h : opensDefinition isTo a ts = true) : a = .word "(" := by
  have hopen : a.isWord "(" = true := (Bool.and_eq_true_iff.mp h).1
  cases a with
  | word w => simpa using hopen
  | number y => simp [Atom.isWord] at hopen
  | list items => simp [Atom.isWord] at hopen

theorem withoutStray_drop (h : opensDefinition isTo a ts = true) :
    withoutStray isTo (a :: ts) = withoutStray isTo ts := by
  rw [withoutStray, if_pos h]

theorem withoutStray_keep (h : opensDefinition isTo a ts = false) :
    withoutStray isTo (a :: ts) = a :: withoutStray isTo ts := by
  rw [withoutStray, if_neg (by simp [h])]

theorem opensDefinition_of_not_isWord (h : a.isWord "(" = false) :
    opensDefinition isTo a ts = false := by
  simp [opensDefinition, h]

/-- Leaving out the stray parentheses changes no count but that of the opening ones. -/
theorem counts_withoutStray (isTo : Atom → Bool) (ts : List Atom) :
    Atom.closings (withoutStray isTo ts) = Atom.closings ts ∧
      Atom.openings (withoutStray isTo ts) + strays isTo ts = Atom.openings ts := by
  induction ts with
  | nil => exact ⟨rfl, rfl⟩
  | cons a ts ih =>
    by_cases hstray : opensDefinition isTo a ts = true
    · obtain rfl := opening_of_opensDefinition hstray
      simp [withoutStray, strays, hstray]
      omega
    · simp [withoutStray, strays, hstray]
      omega

/-- A front of the atoms closes as much as a front of those without the stray parentheses, and opens
no less. -/
theorem exists_front_withoutStray {front : List Atom} (h : front <+: ts) :
    ∃ front', front' <+: withoutStray isTo ts ∧ Atom.closings front = Atom.closings front' ∧
      Atom.openings front' ≤ Atom.openings front := by
  induction ts generalizing front with
  | nil => exact ⟨[], List.nil_prefix, by simp [List.prefix_nil.mp h]⟩
  | cons a ts ih =>
    rcases List.prefix_cons_iff.mp h with rfl | ⟨front, rfl, htail⟩
    · exact ⟨[], List.nil_prefix, rfl, Nat.le_refl _⟩
    obtain ⟨front', hprefix, hclosings, hopenings⟩ := ih htail
    by_cases hstray : opensDefinition isTo a ts = true
    · obtain rfl := opening_of_opensDefinition hstray
      refine ⟨front', by simpa [withoutStray, hstray] using hprefix, by simpa using hclosings, ?_⟩
      simp
      omega
    · refine ⟨a :: front', by simpa [withoutStray, hstray] using hprefix, ?_, ?_⟩
      · simpa using hclosings
      · simpa using hopenings

theorem Matched.of_balanced (h : Atom.Balanced (withoutStray isTo (outside isTo ts))) :
    Matched isTo ts where
  balanced := h
  within front hfront := by
    obtain ⟨front', hprefix, hclosings, hopenings⟩ := exists_front_withoutStray hfront
    have hle := h.within front' hprefix
    omega
  total := by
    obtain ⟨hclosings, hopenings⟩ := counts_withoutStray isTo (outside isTo ts)
    have hclosed := h.closed
    omega

/-! ## What an expression takes -/

/-- Atoms whose parentheses match, outside definitions and but for those that call `TO`. -/
inductive Enclosed (isTo : Atom → Bool) : List Atom → Prop where
  | nil : Enclosed isTo []
  | atom {a : Atom} {ts : List Atom} : a.isParen = false → isTo a = false → Enclosed isTo ts →
    Enclosed isTo (a :: ts)
  | group {ts us : List Atom} : ts.head?.any isTo = false → Enclosed isTo ts → Enclosed isTo us →
    Enclosed isTo (.word "(" :: (ts ++ .word ")" :: us))
  | definition {a : Atom} {ds us : List Atom} {x : String × Definition} : isTo a = true →
    Definition.parse ds = (.ok x, []) → Enclosed isTo us → Enclosed isTo (a :: (ds ++ us))
  | stray {a : Atom} {ds us : List Atom} {x : String × Definition} : isTo a = true →
    Definition.parse ds = (.ok x, []) → Enclosed isTo us →
    Enclosed isTo (.word "(" :: a :: (ds ++ us))

theorem Enclosed.append (h : Enclosed isTo ts) (h' : Enclosed isTo us) :
    Enclosed isTo (ts ++ us) := by
  induction h with
  | nil => exact h'
  | atom hparen hto _ ih => exact .atom hparen hto ih
  | group hhead hts _ _ ih => simpa using Enclosed.group hhead hts ih
  | definition hto hparse _ ih => simpa using Enclosed.definition hto hparse ih
  | stray hto hparse _ ih => simpa using Enclosed.stray hto hparse ih

/-- What is left of enclosed atoms without definitions and stray parentheses is balanced, whatever
stands behind them. -/
theorem Enclosed.exists_balanced (hname : ∀ a, isTo a = true → a.isParen = false)
    (h : Enclosed isTo ts) :
    ∃ core, Atom.Balanced core ∧ ∀ us,
      withoutStray isTo (outside isTo (ts ++ us))
        = core ++ withoutStray isTo (outside isTo us) := by
  have hparen : ∀ a : Atom, a.isParen = true → isTo a = false := by
    intro a ha
    cases hto : isTo a with
    | false => rfl
    | true => exact absurd ha (by simp [hname a hto])
  induction h with
  | nil => exact ⟨[], .nil, fun us => rfl⟩
  | @atom a ts hplain hto _ ih =>
    obtain ⟨core, hcore, hrest⟩ := ih
    refine ⟨a :: core, hcore.cons hplain, fun us => ?_⟩
    have hword : a.isWord "(" = false := (Atom.not_isWord_of_isParen hplain).1
    rw [List.cons_append, outside_cons hto, withoutStray_keep (opensDefinition_of_not_isWord hword),
      hrest, List.cons_append]
  | @group ts us hhead _ _ ihts ihus =>
    obtain ⟨inner, hinner, hts⟩ := ihts
    obtain ⟨core, hcore, hus⟩ := ihus
    refine ⟨.word "(" :: (inner ++ .word ")" :: core), hinner.group hcore, fun vs => ?_⟩
    have hclose : isTo (.word ")") = false := hparen _ rfl
    -- What stands behind the opening parenthesis is not `TO`, be it empty or not.
    have hopen : opensDefinition isTo (.word "(")
        (outside isTo (ts ++ .word ")" :: (us ++ vs))) = false := by
      cases ts with
      | nil => simp [opensDefinition, head?_outside, hclose]
      | cons a ts => simpa [opensDefinition, head?_outside] using hhead
    have hgroup : .word "(" :: (ts ++ .word ")" :: us) ++ vs
        = .word "(" :: (ts ++ .word ")" :: (us ++ vs)) := by simp
    rw [hgroup, outside_cons (hparen _ rfl), withoutStray_keep hopen, hts, outside_cons hclose,
      withoutStray_keep (opensDefinition_of_not_isWord rfl), hus]
    simp
  | @definition a ds us x hto hparse _ ih =>
    obtain ⟨core, hcore, hrest⟩ := ih
    refine ⟨a :: core, hcore.cons (hname a hto), fun vs => ?_⟩
    have hword : a.isWord "(" = false := (Atom.not_isWord_of_isParen (hname a hto)).1
    rw [List.cons_append, List.append_assoc, outside_definition hto hparse,
      withoutStray_keep (opensDefinition_of_not_isWord hword), hrest, List.cons_append]
  | @stray a ds us x hto hparse _ ih =>
    obtain ⟨core, hcore, hrest⟩ := ih
    refine ⟨a :: core, hcore.cons (hname a hto), fun vs => ?_⟩
    have hword : a.isWord "(" = false := (Atom.not_isWord_of_isParen (hname a hto)).1
    have hopen : opensDefinition isTo (.word "(") (a :: outside isTo (us ++ vs)) = true := by
      simp [opensDefinition, hto]
    rw [List.cons_append, List.cons_append, List.append_assoc, outside_cons (hparen _ rfl),
      outside_definition hto hparse, withoutStray_drop hopen,
      withoutStray_keep (opensDefinition_of_not_isWord hword), hrest, List.cons_append]

theorem Enclosed.matched (hname : ∀ a, isTo a = true → a.isParen = false)
    (h : Enclosed isTo ts) : Matched isTo ts := by
  obtain ⟨core, hcore, hts⟩ := h.exists_balanced hname
  have heq : withoutStray isTo (outside isTo ts) = core := by
    simpa [withoutStray] using hts []
  exact .of_balanced (heq ▸ hcore)

end Parse

end TurtleLogo
