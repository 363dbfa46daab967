import TurtleLogo.Proofs.Parse.Name
import TurtleLogo.Proofs.Parse.Yield

set_option autoImplicit false

/-! # Numbers of inputs

A call without parentheses takes the natural number of inputs of its procedure and nobody checks it
against the bounds. That is right as long as the registry is `Proper`: every procedure accepts its
natural number of inputs, and none looks at an input that a call of it may lack. The registry of a
new interpreter is proper, and reading keeps it so. -/

namespace TurtleLogo

/-! ## Procedures -/

/-- How many inputs a primitive looks at without asking whether they are there. -/
def Primitive.needs : Primitive → Nat
  | home | position | xCoordinate | yCoordinate | heading | clearScreen | penDown | penUp
  | isPenDown | isButton | hideTurtle | showTurtle | beep | repcount | ifElse | stop | declare
  | showLine | printLine | yes | no | exclusiveOr => 0
  | forward | back | left | right | setPosition | setX | setY | setHeading | towards | setColor
  | wait | forever | test | ifTrue | ifFalse | condClauses | run | output | thing | negation => 1
  | setXY | arc | repeatTimes | forRange | doTimes | caseOf | make | declareAndMake => 2

/-- How many inputs a primitive takes apart without asking whether they are there. -/
def Deferred.needs : Deferred → Nat
  | conjunction | disjunction => 0
  | whileLoop | untilLoop | doWhile | doUntil => 2

/-- How many inputs a procedure looks at without asking whether they are there. -/
def Procedure.needs (p : Procedure) : Nat :=
  match p.body with
  | .primitive q => q.needs
  | .deferred q => q.needs
  | .definer | .host _ | .defined _ => 0

theorem Arity.accepts_iff {a : Arity} {n : Nat} :
    a.accepts n = true ↔ a.least ≤ n ∧ ∀ most, a.most = some most → n ≤ most := by
  simp only [accepts, Bool.and_eq_true, decide_eq_true_eq]
  cases a.most with
  | none => simp
  | some most => simp

/-- A procedure that accepts its natural number of inputs, and with the least number it accepts has
all it needs. -/
structure Procedure.Proper (p : Procedure) : Prop where
  natural : p.arity.accepts p.arity.natural = true
  needs : p.needs ≤ p.arity.least

/-! ## Definitions -/

namespace Definition

theorem parseBody_ok {name given : String} {inputs : List String}
    {optional : List (String × List Atom)} {input : Option String} {natural : Nat} {d : Definition}
    {ts rest : List Atom}
    (h : parseBody name inputs optional input natural ts = (.ok (given, d), rest)) :
    given = name ∧ d.inputs = inputs ∧ d.optional = optional ∧ d.rest = input ∧
      d.natural = natural := by
  unfold parseBody at h
  split at h
  · simp only [Prod.mk.injEq, Except.ok.injEq] at h
    obtain ⟨⟨rfl, rfl⟩, -⟩ := h
    exact ⟨rfl, rfl, rfl, rfl, rfl⟩
  · simp at h

theorem accepts_arity {d : Definition} {n : Nat} :
    d.arity.accepts n = true ↔ d.inputs.length ≤ n ∧
      (d.rest.isSome = true ∨ n ≤ d.inputs.length + d.optional.length) := by
  rw [Arity.accepts_iff]
  cases hrest : d.rest with
  | none => simp [arity, hrest]
  | some name => simp [arity, hrest]

theorem bounds_of_isConsistent {inputs optional : Nat} {hasRest : Bool} {n : Float}
    (h : isConsistent inputs optional hasRest n = true) :
    inputs ≤ Decimal.toCount n ∧
      (hasRest = true ∨ Decimal.toCount n ≤ inputs + optional) := by
  simp only [isConsistent, Bool.and_eq_true, Bool.or_eq_true, decide_eq_true_eq] at h
  exact ⟨h.1.2, h.2⟩

/-- A definition that can be read has the name of a procedure and accepts the number of inputs that
it declares, or the number of its required inputs if it declares none. -/
theorem parse_ok {ts rest : List Atom} {given : String} {d : Definition}
    (h : parse ts = (.ok (given, d), rest)) :
    isName given = true ∧ d.arity.accepts d.natural = true := by
  cases ts with
  | nil => simp [parse] at h
  | cons a ts =>
    cases a with
    | number x => simp [parse] at h
    | list items => simp [parse] at h
    | word name =>
      rw [parse_word] at h
      split at h
      · simp at h
      · next hname =>
        rw [accepts_arity]
        simp only [parseNamed] at h
        split at h
        · obtain ⟨rfl, hinputs, -, -, hnatural⟩ := parseBody_ok h
          refine ⟨by simpa using hname, ?_⟩
          rw [hnatural, hinputs]
          exact ⟨Nat.le_refl _, Or.inr (Nat.le_add_right _ _)⟩
        · split at h
          · next hconsistent =>
            obtain ⟨rfl, hinputs, hoptional, hrest, hnatural⟩ := parseBody_ok h
            refine ⟨by simpa using hname, ?_⟩
            rw [hnatural, hinputs, hoptional, hrest]
            exact bounds_of_isConsistent hconsistent
          · simp at h

theorem entry_proper {d : Definition} (h : d.arity.accepts d.natural = true) (name : String) :
    (d.entry name).Proper :=
  ⟨h, Nat.zero_le _⟩

end Definition

/-- A word that can name a procedure is read as a call. -/
theorem Parse.wordExpr_of_isName {w : String} (h : Definition.isName w = true) (expr : Parse Expr)
    (n : Nat) : wordExpr expr n w = naturalCall expr w := by
  simp only [Definition.isName, Bool.and_eq_true, Bool.not_eq_true', bne_iff_ne] at h
  obtain ⟨⟨⟨⟨hnumeral, -⟩, hopen⟩, hclose⟩, hhead⟩ := h
  have hnone : numeral? w = none := by
    simpa [isNumeral, numeral?] using hnumeral
  unfold wordExpr
  rw [hnone]
  dsimp only
  split
  · next htext => simp [htext] at hhead
  · next hname => simp [hname] at hhead
  · next hparen => exact absurd (String.toList_inj.mp hparen) hopen
  · next hparen => exact absurd (String.toList_inj.mp hparen) hclose
  · rfl

/-! ## Registries -/

namespace Registry

variable {r : Registry} {name : String} {p : Procedure}

/-- Every procedure is proper, and a definition stands under the name it was given, which reading
takes for a call. -/
structure Proper (r : Registry) : Prop where
  procedure {name : String} {p : Procedure} : r.get? name = some p → p.Proper
  definition {name : String} {p : Procedure} {d : Definition} :
    r.get? name = some p → p.body = .defined d →
      ∃ given, foldName name = foldName given ∧ Definition.isName given = true ∧ p = d.entry given

theorem Proper.insert (h : r.Proper) (hp : p.Proper)
    (hname : ∀ d, p.body = .defined d → Definition.isName name = true ∧ p = d.entry name) :
    Proper (NameTable.insert r name p) where
  procedure {other q} hget := by
    rw [NameTable.get?_insert] at hget
    split at hget
    · obtain rfl := Option.some.inj hget
      exact hp
    · exact h.procedure hget
  definition {other q d} hget hbody := by
    rw [NameTable.get?_insert] at hget
    split at hget
    · next hfold =>
      obtain rfl := Option.some.inj hget
      exact ⟨name, hfold, hname d hbody⟩
    · exact h.definition hget hbody

theorem Proper.install (h : r.Proper) {r' : Registry} {d : Definition}
    (haccepts : d.arity.accepts d.natural = true) (hname : Definition.isName name = true)
    (hinstall : r.install name d = .ok r') : r'.Proper := by
  obtain ⟨rfl, -⟩ := install_ok hinstall
  refine h.insert (Definition.entry_proper haccepts name) fun d' hbody => ?_
  obtain rfl := Body.defined.inj hbody
  exact ⟨hname, rfl⟩

/-- Calls that are read from atoms have numbers of inputs that their procedures accept. -/
theorem Proper.supports :
    Parse.Supports Proper fun p n => p.Proper ∧ p.arity.accepts n = true where
  natural h hget := ⟨h.procedure hget, (h.procedure hget).natural⟩
  accepted h hget haccepts := ⟨h.procedure hget, haccepts⟩
  define h hparse hinstall := by
    obtain ⟨hname, haccepts⟩ := Definition.parse_ok hparse
    exact h.install haccepts hname hinstall

/-! ## The registry of a new interpreter -/

theorem Proper.register (h : r.Proper) {arity : Arity} {body : Body}
    (hp : Procedure.Proper ⟨Text.upper name, body, arity⟩) (hbody : ∀ d, body ≠ .defined d) :
    (r.register name arity body).Proper :=
  h.insert hp fun d hdefined => absurd hdefined (hbody d)

theorem standard_proper : standard.Proper := by
  have hprimitive : ∀ entry ∈ Primitive.catalogue,
      entry.2.1.accepts entry.2.1.natural = true ∧ entry.2.2.needs ≤ entry.2.1.least := by decide
  have hdeferred : ∀ entry ∈ Deferred.catalogue,
      entry.2.1.accepts entry.2.1.natural = true ∧ entry.2.2.needs ≤ entry.2.1.least := by decide
  refine standard_induction ?_ (fun entry hmem name _ r hr => ?_)
    (fun entry hmem name _ r hr => ?_) fun r hr => hr.register ⟨rfl, Nat.zero_le _⟩ (by simp)
  · exact ⟨fun h => by simp [NameTable.get?] at h, fun h => by simp [NameTable.get?] at h⟩
  · obtain ⟨hnatural, hneeds⟩ := hprimitive entry hmem
    exact hr.register ⟨hnatural, hneeds⟩ (by simp)
  · obtain ⟨hnatural, hneeds⟩ := hdeferred entry hmem
    exact hr.register ⟨hnatural, hneeds⟩ (by simp)

end Registry

end TurtleLogo
