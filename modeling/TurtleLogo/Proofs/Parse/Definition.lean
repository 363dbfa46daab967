import Mathlib.Data.List.Infix
import TurtleLogo.Definition

set_option autoImplicit false

/-! # What a definition takes of the atoms

Whatever becomes of it, a definition takes atoms off the front only (`parse_suffix`). One that is
read to its `END` does not depend on what stands behind it (`parse_append`): the header is read as
far as it goes, but it cannot go past the `END`. -/

namespace TurtleLogo.Definition

/-- A list for an optional input is taken apart after its name, and something is left. -/
theorem optional?_eq_some {a : Atom} {name : String} {default : List Atom}
    (h : optional? a = some (name, default)) :
    ∃ head, a = .list (head :: default) ∧ parameter? head = some name ∧ default ≠ [] := by
  unfold optional? at h
  split at h
  · next head b rest =>
    obtain ⟨v, hv, hpair⟩ := Option.map_eq_some_iff.mp h
    simp only [Prod.mk.injEq] at hpair
    obtain ⟨rfl, rfl⟩ := hpair
    exact ⟨head, rfl, hv, List.cons_ne_nil b rest⟩
  · cases h

/-! ## Only off the front -/

/-- Splits off the leading atoms that `f` reads something from. -/
def takeLeading {α : Type} (f : Atom → Option α) : List Atom → List α × List Atom
  | [] => ([], [])
  | a :: ts =>
    match f a with
    | some x =>
      let more := takeLeading f ts
      (x :: more.1, more.2)
    | none => ([], a :: ts)

theorem takeInputs_eq (ts : List Atom) : takeInputs ts = takeLeading parameter? ts := by
  induction ts with
  | nil => rfl
  | cons a ts ih =>
    simp only [takeInputs, takeLeading, ih]
    cases parameter? a <;> rfl

theorem takeOptional_eq (ts : List Atom) : takeOptional ts = takeLeading optional? ts := by
  induction ts with
  | nil => rfl
  | cons a ts ih =>
    simp only [takeOptional, takeLeading, ih]
    cases optional? a <;> rfl

theorem takeLeading_suffix {α : Type} (f : Atom → Option α) (ts : List Atom) :
    (takeLeading f ts).2 <:+ ts := by
  induction ts with
  | nil => exact List.suffix_refl []
  | cons a ts ih =>
    simp only [takeLeading]
    split
    · exact ih.trans (List.suffix_cons a ts)
    · exact List.suffix_refl (a :: ts)

theorem takeRest_suffix (ts : List Atom) : (takeRest ts).2 <:+ ts := by
  cases ts with
  | nil => exact List.suffix_refl []
  | cons a ts =>
    simp only [takeRest]
    split
    · exact List.suffix_cons a ts
    · exact List.suffix_refl (a :: ts)

theorem takeBody_suffix (ts : List Atom) : (takeBody ts).2 <:+ ts := by
  induction ts with
  | nil => exact List.suffix_refl []
  | cons a ts ih =>
    simp only [takeBody]
    split
    · exact List.suffix_cons a ts
    · exact ih.trans (List.suffix_cons a ts)

theorem parseBody_snd (name : String) (inputs : List String)
    (optional : List (String × List Atom)) (rest : Option String) (natural : Nat)
    (ts : List Atom) :
    (parseBody name inputs optional rest natural ts).2 = (takeBody ts).2 := by
  unfold parseBody
  split
  · next h => rw [h]
  · next h => rw [h]

/-- The atoms that follow the header of a definition, up to a declared number of inputs. -/
def afterHeader (ts : List Atom) : List Atom :=
  (takeRest (takeOptional (takeInputs ts).2).2).2

theorem afterHeader_suffix (ts : List Atom) : afterHeader ts <:+ ts := by
  have h₁ : (takeInputs ts).2 <:+ ts := takeInputs_eq ts ▸ takeLeading_suffix parameter? ts
  have h₂ : (takeOptional (takeInputs ts).2).2 <:+ (takeInputs ts).2 :=
    takeOptional_eq _ ▸ takeLeading_suffix optional? _
  have h₃ := takeRest_suffix (takeOptional (takeInputs ts).2).2
  exact h₃.trans (h₂.trans h₁)

/-- Reads what follows the name of a definition. -/
def parseNamed (name : String) (ts : List Atom) : Except Cause (String × Definition) × List Atom :=
  let inputs := (takeInputs ts).1
  let optional := (takeOptional (takeInputs ts).2).1
  let rest := (takeRest (takeOptional (takeInputs ts).2).2).1
  match declared? (afterHeader ts) with
  | none => parseBody name inputs optional rest inputs.length (afterHeader ts)
  | some n =>
    if isConsistent inputs.length optional.length rest.isSome n then
      parseBody name inputs optional rest (Decimal.toCount n) (afterHeader ts).tail
    else (.error (.badInputCount name), afterHeader ts)

theorem parse_word (name : String) (ts : List Atom) :
    parse (.word name :: ts)
      = if !isName name then (.error (.unsuitable .badDefinition "TO" (.word name)), ts)
        else parseNamed name ts := rfl

theorem parseNamed_suffix (name : String) (ts : List Atom) : (parseNamed name ts).2 <:+ ts := by
  have hafter := afterHeader_suffix ts
  simp only [parseNamed]
  split
  · rw [parseBody_snd]
    exact (takeBody_suffix _).trans hafter
  · split
    · rw [parseBody_snd]
      exact (takeBody_suffix _).trans ((List.tail_suffix _).trans hafter)
    · exact hafter

/-- A definition leaves a suffix of the atoms, also if it fails. -/
theorem parse_suffix (ts : List Atom) : (parse ts).2 <:+ ts := by
  cases ts with
  | nil => exact List.suffix_refl []
  | cons a ts =>
    cases a with
    | number x => exact List.suffix_cons _ ts
    | list items => exact List.suffix_cons _ ts
    | word name =>
      rw [parse_word]
      split
      · exact List.suffix_cons _ ts
      · exact (parseNamed_suffix name ts).trans (List.suffix_cons _ ts)

/-! ## Why there is none -/

theorem parseBody_error {name : String} {inputs : List String}
    {optional : List (String × List Atom)} {input : Option String} {natural : Nat}
    {ts rest : List Atom} {cause : Cause}
    (h : parseBody name inputs optional input natural ts = (.error cause, rest)) :
    cause = .endExpected name := by
  unfold parseBody at h
  split at h
  · simp at h
  · simp only [Prod.mk.injEq, Except.error.injEq] at h
    exact h.1.symm

/-- What is no definition is faulted as one. -/
theorem kind_of_parse_error {ts rest : List Atom} {cause : Cause}
    (h : parse ts = (.error cause, rest)) : cause.kind = .badDefinition := by
  have hcause : ∀ {c : Cause} {r : List Atom},
      ((.error c, r) : Except Cause (String × Definition) × List Atom) = (.error cause, rest) →
        cause = c := by
    intro c r heq
    simp only [Prod.mk.injEq, Except.error.injEq] at heq
    exact heq.1.symm
  cases ts with
  | nil => rw [hcause h]; rfl
  | cons a ts =>
    cases a with
    | number x => rw [hcause h]; rfl
    | list items => rw [hcause h]; rfl
    | word name =>
      rw [parse_word] at h
      split at h
      · rw [hcause h]
        rfl
      · simp only [parseNamed] at h
        split at h
        · rw [parseBody_error h]
          rfl
        · split at h
          · rw [parseBody_error h]
            rfl
          · rw [hcause h]
            rfl

/-! ## Nothing past the end -/

variable {ts more rest : List Atom}

theorem takeLeading_append {α : Type} {f : Atom → Option α} (h : (takeLeading f ts).2 ≠ []) :
    takeLeading f (ts ++ more) = ((takeLeading f ts).1, (takeLeading f ts).2 ++ more) := by
  induction ts with
  | nil => exact absurd rfl h
  | cons a ts ih =>
    simp only [takeLeading, List.cons_append] at h ⊢
    split
    · next x hx =>
      simp only [hx] at h
      rw [ih h]
    · rfl

theorem takeRest_append (h : (takeRest ts).2 ≠ []) :
    takeRest (ts ++ more) = ((takeRest ts).1, (takeRest ts).2 ++ more) := by
  cases ts with
  | nil => exact absurd rfl h
  | cons a ts =>
    simp only [takeRest, List.cons_append]
    split
    · rfl
    · rfl

theorem declared?_append (h : ts ≠ []) : declared? (ts ++ more) = declared? ts := by
  cases ts with
  | nil => exact absurd rfl h
  | cons a ts => cases a <;> rfl

theorem takeBody_append {body : List Atom} (h : takeBody ts = (some body, rest)) :
    takeBody (ts ++ more) = (some body, rest ++ more) := by
  induction ts generalizing body with
  | nil => simp [takeBody] at h
  | cons a ts ih =>
    simp only [takeBody, List.cons_append] at h ⊢
    split at h
    · next hend =>
      simp only [Prod.mk.injEq, Option.some.injEq] at h
      obtain ⟨rfl, rfl⟩ := h
      simp only [hend, if_true]
    · next hend =>
      simp only [Prod.mk.injEq, Option.map_eq_some_iff] at h
      obtain ⟨⟨body', hbody, rfl⟩, hrest⟩ := h
      have htail : takeBody ts = (some body', rest) := Prod.ext hbody hrest
      simp [hend, ih htail]

theorem parseBody_append {name : String} {inputs : List String}
    {optional : List (String × List Atom)} {restInput : Option String} {natural : Nat}
    {x : String × Definition}
    (h : parseBody name inputs optional restInput natural ts = (.ok x, rest)) :
    parseBody name inputs optional restInput natural (ts ++ more) = (.ok x, rest ++ more) := by
  unfold parseBody at h ⊢
  split at h
  · next body ts' hbody =>
    simp only [Prod.mk.injEq, Except.ok.injEq] at h
    obtain ⟨rfl, rfl⟩ := h
    rw [takeBody_append hbody]
  · simp at h

theorem parseBody_ne_nil {name : String} {inputs : List String}
    {optional : List (String × List Atom)} {restInput : Option String} {natural : Nat}
    {x : String × Definition}
    (h : parseBody name inputs optional restInput natural ts = (.ok x, rest)) : ts ≠ [] := by
  rintro rfl
  simp [parseBody, takeBody] at h

/-- A header that something follows is read the same with more behind it. -/
theorem header_append (more : List Atom) (h : afterHeader ts ≠ []) :
    (takeInputs (ts ++ more)).1 = (takeInputs ts).1 ∧
    (takeOptional (takeInputs (ts ++ more)).2).1 = (takeOptional (takeInputs ts).2).1 ∧
    (takeRest (takeOptional (takeInputs (ts ++ more)).2).2).1
      = (takeRest (takeOptional (takeInputs ts).2).2).1 ∧
    afterHeader (ts ++ more) = afterHeader ts ++ more := by
  have hoptional : (takeOptional (takeInputs ts).2).2 ≠ [] := by
    intro hnil
    exact h (by rw [afterHeader, hnil]; rfl)
  have hinputs : (takeInputs ts).2 ≠ [] := by
    intro hnil
    exact hoptional (by rw [hnil]; rfl)
  simp only [afterHeader, takeInputs_eq, takeOptional_eq] at h hinputs hoptional ⊢
  rw [takeLeading_append hinputs, takeLeading_append hoptional, takeRest_append h]
  exact ⟨rfl, rfl, rfl, rfl⟩

theorem parseNamed_append {name : String} {x : String × Definition}
    (h : parseNamed name ts = (.ok x, rest)) :
    parseNamed name (ts ++ more) = (.ok x, rest ++ more) := by
  -- The `END` is still to come after the header, so the header stops before `more`.
  have hafter : afterHeader ts ≠ [] := by
    intro hnil
    simp only [parseNamed, hnil, declared?] at h
    exact parseBody_ne_nil h rfl
  obtain ⟨hinputs, hoptional, hrest, hmore⟩ := header_append more hafter
  simp only [parseNamed, hinputs, hoptional, hrest, hmore, declared?_append hafter] at h ⊢
  split at h
  · exact parseBody_append h
  · split at h
    · next hok =>
      simp only [hok, if_true]
      rw [List.tail_append_of_ne_nil hafter]
      exact parseBody_append h
    · simp at h

/-- A definition that is read to its end is read the same with more atoms behind it. -/
theorem parse_append {x : String × Definition} (h : parse ts = (.ok x, rest)) :
    parse (ts ++ more) = (.ok x, rest ++ more) := by
  cases ts with
  | nil => simp [parse] at h
  | cons a ts =>
    cases a with
    | number y => simp [parse] at h
    | list items => simp [parse] at h
    | word name =>
      rw [parse_word] at h
      rw [List.cons_append, parse_word]
      split at h
      · simp at h
      · next hname =>
        rw [if_neg hname]
        exact parseNamed_append h

end TurtleLogo.Definition
