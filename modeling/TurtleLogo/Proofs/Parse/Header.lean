import TurtleLogo.Proofs.Decimal.Binary
import TurtleLogo.Proofs.Parse.Arity

set_option autoImplicit false

/-! # How a definition is spelled

A definition is its name, one `:name` word for each required input, one `[:name default …]` list for
each optional input, a `[:name]` list for the rest input, perhaps a numeral, the body and a closing
`END`. The header is read greedily, in phases that look at one atom each, and the body may begin
with atoms that look like header. `parse_eq_ok_iff` says that the phases lose and invent nothing:
the lists of atoms that begin with a definition are exactly the spellings of definitions, each
followed by what is left.

The number of inputs that a header declares is kept in a machine word, so it is the value of the
numeral up to the largest count only (`declared_beyond_maxCount`). -/

namespace TurtleLogo.Definition

/-! ## Words and lists of a header -/

/-- The word `:name`. -/
def inputWord (name : String) : Atom :=
  .word (":" ++ name)

/-- The list `[:name default …]`. -/
def optionalList (input : String × List Atom) : Atom :=
  .list (inputWord input.1 :: input.2)

/-- The list `[:name]`. -/
def restList (name : String) : Atom :=
  .list [inputWord name]

/-- What an optional input needs: a name and a default. -/
def IsOptional (input : String × List Atom) : Prop :=
  input.1 ≠ "" ∧ input.2 ≠ []

theorem parameter?_eq_some_iff {a : Atom} {name : String} :
    parameter? a = some name ↔ name ≠ "" ∧ a = inputWord name := by
  constructor
  · intro h
    unfold parameter? at h
    split at h
    · next w =>
      split at h
      · next c cs hw =>
        simp only [Option.some.injEq] at h
        subst h
        refine ⟨by simp, ?_⟩
        have hword : w = ":" ++ String.ofList (c :: cs) := by
          rw [← String.toList_inj, hw]
          simp
        rw [inputWord, hword]
      · cases h
    · cases h
  · rintro ⟨hne, rfl⟩
    obtain ⟨c, cs, hname⟩ := List.exists_cons_of_ne_nil (mt String.toList_eq_nil_iff.mp hne)
    have hword : (":" ++ name).toList = ':' :: c :: cs := by simp [hname]
    simp only [inputWord, parameter?, hword]
    rw [← hname, String.ofList_toList]

theorem optional?_eq_some_iff {a : Atom} {input : String × List Atom} :
    optional? a = some input ↔ IsOptional input ∧ a = optionalList input := by
  obtain ⟨name, default⟩ := input
  constructor
  · intro h
    obtain ⟨head, rfl, hhead, hdefault⟩ := optional?_eq_some h
    obtain ⟨hname, rfl⟩ := parameter?_eq_some_iff.mp hhead
    exact ⟨⟨hname, hdefault⟩, rfl⟩
  · rintro ⟨⟨hname, hdefault⟩, rfl⟩
    obtain ⟨b, more, rfl⟩ := List.exists_cons_of_ne_nil hdefault
    simp [optionalList, optional?, parameter?_eq_some_iff.mpr ⟨hname, rfl⟩]

theorem rest?_eq_some_iff {a : Atom} {name : String} :
    rest? a = some name ↔ name ≠ "" ∧ a = restList name := by
  constructor
  · intro h
    unfold rest? at h
    split at h
    · obtain ⟨hname, rfl⟩ := parameter?_eq_some_iff.mp h
      exact ⟨hname, rfl⟩
    · cases h
  · rintro ⟨hname, rfl⟩
    exact parameter?_eq_some_iff.mpr ⟨hname, rfl⟩

/-- A phase passes over an atom that is not of its form. -/
theorem eq_none_iff {α : Type} {f : Atom → Option α} {write : α → Atom} {ok : α → Prop}
    (hf : ∀ {a x}, f a = some x ↔ ok x ∧ a = write x) {a : Atom} :
    f a = none ↔ ∀ x, ok x → a ≠ write x := by
  rw [Option.eq_none_iff_forall_ne_some]
  exact ⟨fun h x hx ha => h x (hf.mpr ⟨hx, ha⟩), fun h x hx => h x (hf.mp hx).1 (hf.mp hx).2⟩

/-! ## The phases -/

variable {ts left more : List Atom}

/-- What is split off the front is what was written there, and all of it: the next atom is of
another form. -/
theorem takeLeading_eq_iff {α : Type} {f : Atom → Option α} {write : α → Atom} {ok : α → Prop}
    (hf : ∀ {a x}, f a = some x ↔ ok x ∧ a = write x) {xs : List α} :
    takeLeading f ts = (xs, left) ↔
      ts = xs.map write ++ left ∧ (∀ x ∈ xs, ok x) ∧ ∀ a ∈ left.head?, f a = none := by
  induction ts generalizing xs with
  | nil =>
    simp only [takeLeading, Prod.mk.injEq]
    constructor
    · rintro ⟨rfl, rfl⟩
      simp
    · rintro ⟨hnil, -, -⟩
      simpa [eq_comm] using hnil
  | cons a ts ih =>
    simp only [takeLeading]
    cases ha : f a with
    | some x =>
      obtain ⟨hx, rfl⟩ := hf.mp ha
      constructor
      · intro h
        obtain ⟨rfl, hleft⟩ := Prod.mk.inj h
        obtain ⟨hts, hall, hnext⟩ := ih.mp (Prod.ext rfl hleft)
        exact ⟨by rw [List.map_cons, List.cons_append, ← hts], by simpa using ⟨hx, hall⟩, hnext⟩
      · rintro ⟨hts, hall, hnext⟩
        cases xs with
        | nil =>
          -- Then the atom that was taken would be the next one.
          rw [List.map_nil, List.nil_append] at hts
          rw [← hts] at hnext
          exact absurd ha (by simp [hnext (write x) rfl])
        | cons y ys =>
          obtain ⟨hhead, htail⟩ := List.cons.inj hts
          have hy : f (write x) = some y := hf.mpr ⟨hall y (by simp), hhead⟩
          obtain rfl : x = y := by simpa [ha] using hy
          have hmore := ih.mpr ⟨htail, fun z hz => hall z (List.mem_cons_of_mem x hz), hnext⟩
          rw [hmore]
    | none =>
      constructor
      · intro h
        obtain ⟨rfl, rfl⟩ := Prod.mk.inj h
        simpa using ha
      · rintro ⟨hts, hall, -⟩
        cases xs with
        | nil => rw [hts]; rfl
        | cons y ys =>
          obtain ⟨rfl, -⟩ := List.cons.inj hts
          rw [hf.mpr ⟨hall y (by simp), rfl⟩] at ha
          cases ha

theorem takeRest_eq_iff {rest : Option String} :
    takeRest ts = (rest, left) ↔
      ts = (rest.map restList).toList ++ left ∧ (∀ name ∈ rest, name ≠ "") ∧
      (rest = none → ∀ a ∈ left.head?, rest? a = none) := by
  cases ts with
  | nil =>
    simp only [takeRest, Prod.mk.injEq]
    constructor
    · rintro ⟨rfl, rfl⟩
      simp
    · rintro ⟨hnil, -, -⟩
      cases rest with
      | none => exact ⟨rfl, by simpa using hnil⟩
      | some name => simp at hnil
  | cons a ts =>
    simp only [takeRest]
    cases ha : rest? a with
    | some name =>
      obtain ⟨hname, rfl⟩ := rest?_eq_some_iff.mp ha
      constructor
      · intro h
        obtain ⟨rfl, rfl⟩ := Prod.mk.inj h
        simpa using hname
      · rintro ⟨hts, hall, hnext⟩
        cases rest with
        | none =>
          obtain rfl : restList name :: ts = left := by simpa using hts
          exact absurd ha (by simp [hnext rfl (restList name) rfl])
        | some other =>
          obtain ⟨hhead, rfl⟩ : restList name = restList other ∧ ts = left := by simpa using hts
          have hother := rest?_eq_some_iff.mpr ⟨hall other rfl, hhead⟩
          rw [← ha, hother]
    | none =>
      constructor
      · intro h
        obtain ⟨rfl, rfl⟩ := Prod.mk.inj h
        simpa using ha
      · rintro ⟨hts, hall, -⟩
        cases rest with
        | none => rw [hts]; rfl
        | some name =>
          obtain ⟨rfl, -⟩ : a = restList name ∧ ts = left := by simpa using hts
          rw [rest?_eq_some_iff.mpr ⟨hall name rfl, rfl⟩] at ha
          cases ha

theorem isKeyword_eq_true_iff {keyword : String} {a : Atom} :
    a.isKeyword keyword = true ↔ ∃ w, a = .word w ∧ Text.sameAscii w keyword = true := by
  cases a <;> simp [Atom.isKeyword]

/-- The body is what stands before the first `END`. -/
theorem takeBody_eq_some_iff {body : List Atom} :
    takeBody ts = (some body, left) ↔
      ∃ close, Text.sameAscii close "end" = true ∧ ts = body ++ .word close :: left ∧
        ∀ a ∈ body, a.isKeyword "end" = false := by
  induction ts generalizing body with
  | nil => simp [takeBody]
  | cons a ts ih =>
    simp only [takeBody]
    by_cases hend : a.isKeyword "end" = true
    · obtain ⟨close, rfl, hclose⟩ := isKeyword_eq_true_iff.mp hend
      rw [if_pos hend]
      constructor
      · intro h
        obtain ⟨hbody, rfl⟩ := Prod.mk.inj h
        obtain rfl := Option.some.inj hbody
        exact ⟨close, hclose, rfl, by simp⟩
      · rintro ⟨close', -, hts, hall⟩
        cases body with
        | nil =>
          obtain ⟨-, rfl⟩ := List.cons.inj hts
          rfl
        | cons b body =>
          obtain ⟨rfl, -⟩ := List.cons.inj hts
          exact absurd hend (by simp [hall])
    · rw [if_neg hend]
      constructor
      · intro h
        obtain ⟨hmap, hleft⟩ := Prod.mk.inj h
        obtain ⟨body', hbody, rfl⟩ := Option.map_eq_some_iff.mp hmap
        obtain ⟨close, hclose, rfl, hall⟩ := ih.mp (Prod.ext hbody hleft)
        exact ⟨close, hclose, rfl, by simpa using ⟨by simpa using hend, hall⟩⟩
      · rintro ⟨close, hclose, hts, hall⟩
        cases body with
        | nil =>
          obtain ⟨rfl, -⟩ := List.cons.inj hts
          exact absurd hclose hend
        | cons b body =>
          obtain ⟨rfl, htail⟩ := List.cons.inj hts
          have hbody := fun x hx => hall x (List.mem_cons_of_mem a hx)
          have hmore := ih.mpr ⟨close, hclose, htail, hbody⟩
          rw [hmore]
          rfl

/-! ## The header -/

/-- Whether `a` does not continue a header with these optional inputs and this rest input. Nothing
but a numeral can follow a rest input, and required inputs stand before all others. -/
structure Stops (optional : List (String × List Atom)) (rest : Option String) (a : Atom) :
    Prop where
  input : optional = [] → rest = none → ∀ name, name ≠ "" → a ≠ inputWord name
  optional : rest = none → ∀ input, IsOptional input → a ≠ optionalList input
  rest : rest = none → ∀ name, name ≠ "" → a ≠ restList name

/-- What the first three phases make of the atoms after the name. -/
theorem header_eq_iff {inputs : List String} {optional : List (String × List Atom)}
    {rest : Option String} :
    (∃ ts₁ ts₂, takeInputs ts = (inputs, ts₁) ∧ takeOptional ts₁ = (optional, ts₂) ∧
      takeRest ts₂ = (rest, left)) ↔
    ts = inputs.map inputWord
        ++ (optional.map optionalList ++ ((rest.map restList).toList ++ left)) ∧
      (∀ name ∈ inputs, name ≠ "") ∧ (∀ input ∈ optional, IsOptional input) ∧
      (∀ name ∈ rest, name ≠ "") ∧ ∀ a ∈ left.head?, Stops optional rest a := by
  simp only [takeInputs_eq, takeOptional_eq, takeLeading_eq_iff parameter?_eq_some_iff,
    takeLeading_eq_iff optional?_eq_some_iff, takeRest_eq_iff]
  constructor
  · rintro ⟨ts₁, ts₂, ⟨rfl, hinputs, hstop₁⟩, ⟨rfl, hoptional, hstop₂⟩, ⟨rfl, hrest, hstop₃⟩⟩
    refine ⟨rfl, hinputs, hoptional, hrest, fun a ha => ⟨?_, ?_, ?_⟩⟩
    · rintro rfl rfl
      exact (eq_none_iff parameter?_eq_some_iff).mp (hstop₁ a (by simpa using ha))
    · rintro rfl
      exact (eq_none_iff optional?_eq_some_iff).mp (hstop₂ a (by simpa using ha))
    · intro hnone
      exact (eq_none_iff rest?_eq_some_iff).mp (hstop₃ hnone a ha)
  · rintro ⟨rfl, hinputs, hoptional, hrest, hstop⟩
    refine ⟨_, _, ⟨rfl, hinputs, ?_⟩, ⟨rfl, hoptional, ?_⟩, ⟨rfl, hrest, ?_⟩⟩
    · -- The list of an optional input or of the rest input is no word.
      intro a ha
      rcases optional with _ | ⟨input, optional⟩
      · rcases rest with _ | name
        · exact (eq_none_iff parameter?_eq_some_iff).mpr
            ((hstop a (by simpa using ha)).input rfl rfl)
        · obtain rfl : restList name = a := by simpa using ha
          rfl
      · obtain rfl : optionalList input = a := by simpa using ha
        rfl
    · -- The list of the rest input has one item only.
      intro a ha
      rcases rest with _ | name
      · exact (eq_none_iff optional?_eq_some_iff).mpr ((hstop a (by simpa using ha)).optional rfl)
      · obtain rfl : restList name = a := by simpa using ha
        rfl
    · intro hnone a ha
      exact (eq_none_iff rest?_eq_some_iff).mpr ((hstop a ha).rest hnone)

theorem declared?_eq_some_iff {n : Float} :
    declared? ts = some n ↔ ∃ w more, ts = .word w :: more ∧ numeral? w = some n := by
  rcases ts with _ | ⟨a, ts⟩
  · simp [declared?]
  · cases a <;> simp [declared?]

theorem declared?_eq_none_iff :
    declared? ts = none ↔ ∀ w, ts.head? = some (.word w) → numeral? w = none := by
  rcases ts with _ | ⟨a, ts⟩
  · simp [declared?]
  · cases a <;> simp [declared?]

/-- A numeral does not continue a header in another way. -/
theorem stops_of_numeral {w : String} {n : Float} (h : numeral? w = some n)
    (optional : List (String × List Atom)) (rest : Option String) :
    Stops optional rest (.word w) where
  input _ _ name _ heq := by
    obtain rfl : w = ":" ++ name := by simpa [inputWord] using heq
    have hchars : (":" ++ name).toList = ':' :: name.toList := by simp
    simp [numeral?_eq_none hchars (by decide) (by decide) (by decide)] at h
  optional _ input _ heq := by simp [optionalList] at heq
  rest _ name _ heq := by simp [restList] at heq

/-! ## The body -/

theorem parseBody_eq_ok_iff {name given : String} {inputs : List String}
    {optional : List (String × List Atom)} {rest : Option String} {natural : Nat} {d : Definition} :
    parseBody name inputs optional rest natural ts = (.ok (given, d), left) ↔
      given = name ∧ d.inputs = inputs ∧ d.optional = optional ∧ d.rest = rest ∧
        d.natural = natural ∧ ∃ close, Text.sameAscii close "end" = true ∧
          ts = d.body ++ .word close :: left ∧ ∀ a ∈ d.body, a.isKeyword "end" = false := by
  unfold parseBody
  constructor
  · intro h
    split at h
    · next body ts' hbody =>
      simp only [Prod.mk.injEq, Except.ok.injEq] at h
      obtain ⟨⟨rfl, rfl⟩, rfl⟩ := h
      exact ⟨rfl, rfl, rfl, rfl, rfl, takeBody_eq_some_iff.mp hbody⟩
    · simp at h
  · rintro ⟨rfl, rfl, rfl, rfl, rfl, hbody⟩
    rw [takeBody_eq_some_iff.mpr hbody]

/-! ## Spellings -/

/-- Whether `w` is a numeral for the count `n`. -/
def Denotes (w : String) (n : Nat) : Prop :=
  ∃ x, numeral? w = some x ∧ Decimal.isWhole x = true ∧ x ≥ 0.0 ∧ Decimal.wholePart x = n

/-- The atoms of a definition: with or without a numeral for the natural number of inputs, and with
`END` in some case. -/
def spelling (d : Definition) (name : String) (declared : Option String) (close : String) :
    List Atom :=
  .word name :: d.inputs.map inputWord ++ d.optional.map optionalList ++
    (d.rest.map restList).toList ++ (declared.map Atom.word).toList ++ d.body ++ [.word close]

/-- The atom behind the header of a definition that declares no number of inputs. -/
def first (d : Definition) (close : String) : Atom :=
  d.body.headD (.word close)

/-- Whether a spelling of the definition can be read back. -/
structure Spells (d : Definition) (name : String) (declared : Option String) (close : String) :
    Prop where
  named : isName name = true
  inputs : ∀ input ∈ d.inputs, input ≠ ""
  optional : ∀ input ∈ d.optional, IsOptional input
  rest : ∀ input ∈ d.rest, input ≠ ""
  body : ∀ a ∈ d.body, a.isKeyword "end" = false
  closed : Text.sameAscii close "end" = true
  /-- A numeral is for the natural number of inputs, which is no larger than a machine word. -/
  natural : ∀ w ∈ declared, d.arity.accepts d.natural = true ∧
    ∃ n, Denotes w n ∧ d.natural = min n Decimal.maxCount
  /-- Without a numeral it is the number of required inputs, and what follows the header is not
  taken for a part of it. -/
  unnumbered : declared = none → d.natural = d.inputs.length ∧
    Stops d.optional d.rest (d.first close) ∧ ∀ w, d.first close = .word w → numeral? w = none

theorem head?_body (d : Definition) (close : String) (left : List Atom) :
    (d.body ++ .word close :: left).head? = some (d.first close) := by
  cases hbody : d.body <;> simp [first, hbody]

theorem isConsistent_iff {d : Definition} {x : Float} :
    (isConsistent d.inputs.length d.optional.length d.rest.isSome x = true ∧
      d.natural = Decimal.toCount x) ↔
    Decimal.isWhole x = true ∧ x ≥ 0.0 ∧ d.arity.accepts d.natural = true ∧
      d.natural = min (Decimal.wholePart x) Decimal.maxCount := by
  simp only [isConsistent, Bool.and_eq_true, Bool.or_eq_true, decide_eq_true_eq, accepts_arity]
  constructor
  · rintro ⟨⟨⟨⟨hwhole, hnonneg⟩, hleast⟩, hmost⟩, hnatural⟩
    rw [← Decimal.toCount_of_isWhole hwhole hnonneg, hnatural]
    exact ⟨hwhole, hnonneg, ⟨hleast, hmost⟩, rfl⟩
  · rintro ⟨hwhole, hnonneg, ⟨hleast, hmost⟩, hnatural⟩
    rw [← Decimal.toCount_of_isWhole hwhole hnonneg] at hnatural
    rw [← hnatural]
    exact ⟨⟨⟨⟨hwhole, hnonneg⟩, hleast⟩, hmost⟩, rfl⟩

/-- What is made of the atoms behind the header. -/
theorem parseNamed_of_header {name : String} {inputs : List String}
    {optional : List (String × List Atom)} {rest : Option String} {after : List Atom}
    (h : ∃ ts₁ ts₂, takeInputs ts = (inputs, ts₁) ∧ takeOptional ts₁ = (optional, ts₂) ∧
      takeRest ts₂ = (rest, after)) :
    parseNamed name ts = match declared? after with
      | none => parseBody name inputs optional rest inputs.length after
      | some n =>
        if isConsistent inputs.length optional.length rest.isSome n then
          parseBody name inputs optional rest (Decimal.toCount n) after.tail
        else (.error (.badInputCount name), after) := by
  obtain ⟨ts₁, ts₂, h₁, h₂, h₃⟩ := h
  cases hdeclared : declared? after with
  | none => simp only [parseNamed, afterHeader, h₁, h₂, h₃, hdeclared]
  | some n => simp only [parseNamed, afterHeader, h₁, h₂, h₃, hdeclared]

/-- A spelling is read back, and nothing behind it is touched. -/
theorem parse_of_spells {d : Definition} {name : String} {declared : Option String}
    {close : String} (h : d.Spells name declared close) (left : List Atom) :
    parse (d.spelling name declared close ++ left) = (.ok (name, d), left) := by
  have hspelling : d.spelling name declared close ++ left
      = .word name :: (d.inputs.map inputWord ++ (d.optional.map optionalList ++
          ((d.rest.map restList).toList ++
            ((declared.map Atom.word).toList ++ (d.body ++ .word close :: left))))) := by
    simp [spelling]
  rw [hspelling, parse_word, if_neg (by simp [h.named])]
  cases declared with
  | none =>
    obtain ⟨hnatural, hstops, hnumeral⟩ := h.unnumbered rfl
    have hfirst := head?_body d close left
    have hnone : declared? (d.body ++ .word close :: left) = none := by
      rw [declared?_eq_none_iff, hfirst]
      intro w hw
      exact hnumeral w (Option.some.inj hw)
    have hafter : ∀ a ∈ (d.body ++ .word close :: left).head?, Stops d.optional d.rest a := by
      simpa [hfirst] using hstops
    have hheader := header_eq_iff.mpr ⟨rfl, h.inputs, h.optional, h.rest, hafter⟩
    rw [Option.map_none, Option.toList_none, List.nil_append, parseNamed_of_header hheader, hnone]
    exact parseBody_eq_ok_iff.mpr
      ⟨rfl, rfl, rfl, rfl, hnatural, close, h.closed, rfl, h.body⟩
  | some w =>
    obtain ⟨haccepts, n, ⟨x, hx, hwhole, hnonneg, rfl⟩, hnatural⟩ := h.natural w rfl
    have hafter : ∀ a ∈ (Atom.word w :: (d.body ++ .word close :: left)).head?,
        Stops d.optional d.rest a := by
      simpa using stops_of_numeral hx d.optional d.rest
    have hsome : declared? (.word w :: (d.body ++ .word close :: left)) = some x := hx
    obtain ⟨hconsistent, hcount⟩ := isConsistent_iff.mpr ⟨hwhole, hnonneg, haccepts, hnatural⟩
    have hheader := header_eq_iff.mpr ⟨rfl, h.inputs, h.optional, h.rest, hafter⟩
    rw [Option.map_some, Option.toList_some, List.singleton_append, parseNamed_of_header hheader,
      hsome]
    simp only [hconsistent, if_true]
    exact parseBody_eq_ok_iff.mpr ⟨rfl, rfl, rfl, rfl, hcount, close, h.closed, rfl, h.body⟩

/-- What is read is a spelling of the definition that is found, followed by what is left. -/
theorem spells_of_parse {d : Definition} {name : String} (h : parse ts = (.ok (name, d), left)) :
    ∃ declared close, d.Spells name declared close ∧
      ts = d.spelling name declared close ++ left := by
  rcases ts with _ | ⟨a, ts⟩
  · simp [parse] at h
  cases a with
  | number y => simp [parse] at h
  | list items => simp [parse] at h
  | word given =>
    rw [parse_word] at h
    split at h
    · simp at h
    · next hnamed =>
      obtain ⟨inputs, optional, rest, after, hheader⟩ : ∃ inputs optional rest after,
          ∃ ts₁ ts₂, takeInputs ts = (inputs, ts₁) ∧ takeOptional ts₁ = (optional, ts₂) ∧
            takeRest ts₂ = (rest, after) := ⟨_, _, _, _, _, _, rfl, rfl, rfl⟩
      rw [parseNamed_of_header hheader] at h
      obtain ⟨hts, hinputs, hoptional, hrest, hstops⟩ := header_eq_iff.mp hheader
      split at h
      · next hnone =>
        obtain ⟨rfl, rfl, rfl, rfl, hnatural, close, hclose, rfl, hbody⟩ :=
          parseBody_eq_ok_iff.mp h
        have hfirst := head?_body d close left
        refine ⟨none, close, ?_, by simpa [spelling] using hts⟩
        exact {
          named := by simpa using hnamed
          inputs := hinputs
          optional := hoptional
          rest := hrest
          body := hbody
          closed := hclose
          natural := by simp
          unnumbered := fun _ => ⟨hnatural, hstops _ hfirst, fun w hw =>
            declared?_eq_none_iff.mp hnone w (hfirst.trans (congrArg some hw))⟩ }
      · next x hx =>
        obtain ⟨w, more, rfl, hw⟩ := declared?_eq_some_iff.mp hx
        split at h
        · next hconsistent =>
          obtain ⟨rfl, rfl, rfl, rfl, hcount, close, hclose, hmore, hbody⟩ :=
            parseBody_eq_ok_iff.mp h
          obtain rfl : more = d.body ++ .word close :: left := hmore
          obtain ⟨hwhole, hnonneg, haccepts, hnatural⟩ :=
            isConsistent_iff.mp ⟨hconsistent, hcount⟩
          refine ⟨some w, close, ?_, by simpa [spelling] using hts⟩
          exact {
            named := by simpa using hnamed
            inputs := hinputs
            optional := hoptional
            rest := hrest
            body := hbody
            closed := hclose
            natural := by
              intro v hv
              obtain rfl := Option.some.inj hv
              exact ⟨haccepts, _, ⟨x, hw, hwhole, hnonneg, rfl⟩, hnatural⟩
            unnumbered := by simp }
        · simp at h

/-- Whether a definition is read to its end does not depend on what stands behind it. -/
theorem parse_of_append {x : String × Definition}
    (h : parse (ts ++ more) = (.ok x, left ++ more)) : parse ts = (.ok x, left) := by
  obtain ⟨name, d⟩ := x
  obtain ⟨declared, close, hspells, hts⟩ := spells_of_parse h
  rw [← List.append_assoc] at hts
  rw [List.append_cancel_right hts]
  exact parse_of_spells hspells left

/-- Reading a definition is a lossless decomposition: the atoms begin with a definition exactly if
they are a spelling of it, followed by what is left. -/
theorem parse_eq_ok_iff {d : Definition} {name : String} :
    parse ts = (.ok (name, d), left) ↔
      ∃ declared close, d.Spells name declared close ∧
        ts = d.spelling name declared close ++ left := by
  constructor
  · exact spells_of_parse
  · rintro ⟨declared, close, hspells, rfl⟩
    exact parse_of_spells hspells left

-- Behind the rest input, what looks like an optional input belongs to the body.
example : parse [.word "f", restList "r", optionalList ("o", [.word "2"]), .word "End"]
    = (.ok ("f", ⟨[], [], some "r", 0, [optionalList ("o", [.word "2"])]⟩), []) := rfl

/-- A declared number beyond the largest count is accepted where a rest input takes all that comes,
but it is not kept: the definition has no spelling with a numeral for its own number of inputs. -/
theorem declared_beyond_maxCount :
    ∃ d, parse [.word "f", restList "r", .word "1e22", .word "end"] = (.ok ("f", d), []) ∧
      ¬ ∃ declared close,
        [.word "f", restList "r", .word "1e22", .word "end"] = d.spelling "f" declared close ∧
        ((declared = none ∧ d.natural = d.inputs.length) ∨
          ∃ w, declared = some w ∧ Denotes w d.natural) := by
  refine ⟨⟨[], [], some "r", Decimal.maxCount, []⟩, rfl, ?_⟩
  rintro ⟨declared, close, hts, ⟨rfl, hnatural⟩ | ⟨w, rfl, x, hx, -, -, hvalue⟩⟩
  · exact absurd hnatural (by decide)
  · obtain ⟨rfl, -⟩ : "1e22" = w ∧ "end" = close := by simpa [spelling] using hts
    have hexact : (numeral? "1e22").map Decimal.wholePart = some (10 ^ 22) := rfl
    rw [hx, Option.map_some, hvalue] at hexact
    exact absurd hexact (by decide)

end TurtleLogo.Definition
