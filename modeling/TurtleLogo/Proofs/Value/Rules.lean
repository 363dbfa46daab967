import TurtleLogo.Proofs.Run.Basic

set_option autoImplicit false

/-! # Values that runs give

`Gives I V Q m` says what comes of the run `m` in a state with `I`: a state with `I` again, and with
it a value with `Q` if the run is done, or a value with `V` if `OUTPUT` passes one on. What is known
of a value is known to the rest of a sequence, and that is what a law about states alone cannot say.

`Discipline I V E` lists what has to be shown of the operations that make values, keep them or find
them again, for all values of a program to satisfy `V`. The rules here are for sequences, inputs and
engines; `TurtleLogo.Proofs.Value.Primitive` and `TurtleLogo.Proofs.Value.Interpret` go on to whole
programs. -/

namespace TurtleLogo

variable {α β : Type} {I : World → Prop} {V : Atom → Prop} {Q : α → Prop}

/-- A run has ended in a state with `I`. A value that it is done with satisfies `Q`, and one that
`OUTPUT` passes on satisfies `V`. -/
def Outcome.Meets (I : World → Prop) (V : Atom → Prop) (Q : α → Prop) : Outcome α → Prop
  | .done a w => I w ∧ Q a
  | .exit (.fault _) w => I w
  | .exit (.output a) w => I w ∧ V a
  | .exit .stop w => I w
  | .exhausted => True

/-- What a run that ends early meets does not depend on what it would have been done with. -/
theorem Outcome.Meets.exit {Q' : β → Prop} {e : Exit} {w : World}
    (h : (Outcome.exit e w : Outcome α).Meets I V Q) :
    (Outcome.exit e w : Outcome β).Meets I V Q' := by
  cases e with
  | fault f => exact h
  | output a => exact h
  | stop => exact h

theorem Outcome.Meets.ends {o : Outcome α} (h : o.Meets I V Q) : o.Ends I := by
  cases o with
  | done a w => exact h.1
  | exhausted => exact trivial
  | exit e w =>
    cases e with
    | fault f => exact h
    | output a => exact h.1
    | stop => exact h

namespace Run

/-- From a state with `I` a run comes to one with `I`, and what it gives satisfies `Q`. -/
def Gives (I : World → Prop) (V : Atom → Prop) (Q : α → Prop) (m : Run α) : Prop :=
  ∀ w, I w → (m w).Meets I V Q

/-- The value, if there is one, satisfies `V`. -/
def Allowed (V : Atom → Prop) (v : Option Atom) : Prop :=
  ∀ a ∈ v, V a

theorem Allowed.none : Allowed V none := by
  simp [Allowed]

theorem Allowed.some {a : Atom} (h : V a) : Allowed V (some a) := by
  simpa [Allowed] using h

/-! ## Steps -/

namespace Gives

variable {m : Run α}

theorem done {a : α} (h : Q a) : Gives I V Q (Pure.pure a) :=
  fun _ hw => ⟨hw, h⟩

theorem fail (cause : Cause) : Gives I V Q (Run.fail cause) :=
  fun _ hw => hw

theorem stop : Gives I V Q (Run.exit .stop) :=
  fun _ hw => hw

theorem output {a : Atom} (h : V a) : Gives I V Q (Run.exit (.output a)) :=
  fun _ hw => ⟨hw, h⟩

theorem exhausted : Gives I V Q fun _ => .exhausted :=
  fun _ _ => trivial

theorem bind {Q' : β → Prop} {f : α → Run β} (hm : Gives I V Q m)
    (hf : ∀ a, Q a → Gives I V Q' (f a)) : Gives I V Q' (m >>= f) := by
  intro w hw
  have hs := hm w hw
  cases hr : m w with
  | done a w₁ =>
    rw [hr] at hs
    rw [bind_done hr]
    exact hf a hs.2 w₁ hs.1
  | exit e w₁ =>
    rw [hr] at hs
    rw [bind_exit hr]
    exact hs.exit
  | exhausted =>
    rw [bind_exhausted hr]
    exact trivial

theorem require {cause : Cause} {x : Option α} (h : ∀ a ∈ x, Q a) :
    Gives I V Q (Run.require cause x) := by
  cases x with
  | none => exact fail cause
  | some a => exact done (h a rfl)

/-- What is found in a state is known to be there. -/
theorem world : Gives I V I Run.world :=
  fun _ hw => ⟨hw, hw⟩

theorem modify {f : World → World} (h : ∀ w, I w → I (f w)) :
    Gives I V (fun _ => True) (Run.modify f) :=
  fun w hw => ⟨h w hw, trivial⟩

theorem heedAbort : Gives I V (fun _ => True) Run.heedAbort := by
  intro w hw
  by_cases habort : w.aborted = true
  · rw [heedAbort_stop habort]
    exact hw
  · rw [heedAbort_go (by simpa using habort)]
    exact ⟨hw, trivial⟩

end Gives

/-! ## What a discipline asks for -/

/-- A discipline for the values of a program: they satisfy `V`, the states in which a program runs
`I` and the expressions that it evaluates `E`. Numbers are allowed, a list is if its items are, what
a state keeps under a name is, and so are the constants and the definitions in expressions. Every
change of the state by allowed values keeps `I`, and reading allowed atoms gives expressions with
`E`. Nothing is asked of hosts, so there may be no calls of their primitives. -/
structure Discipline (I : World → Prop) (V : Atom → Prop) (E : Expr → Prop) : Prop where
  number (x : Float) : V (.number x)
  list {items : List Atom} : V (.list items) ↔ ∀ a ∈ items, V a
  value {w : World} {name : String} {a : Atom} : I w → w.value? name = some a → V a
  turtle {w : World} (turtle : Turtle) : I w → I { w with turtle }
  repcount {w : World} (n : Nat) : I w → I (Act.withRepcount n w)
  calls {w : World} (calls : Array String) : I w → I { w with calls }
  assign {w : World} (name : String) {a : Atom} : I w → V a → I (w.assign name a)
  bindLocal {w : World} (name : String) {a : Atom} : I w → V a →
    I { w with frames := w.frames.bindLocal name a }
  declareLocal {w : World} (name : String) : I w →
    I { w with frames := w.frames.declareLocal name }
  setTest {w : World} (flag : Option Bool) : I w → I { w with frames := w.frames.setTest flag }
  push {w : World} : I w → I { w with frames := w.frames.push }
  pop {w : World} : I w → I { w with frames := w.frames.pop }
  write {w : World} {args : List Atom} {text : Atom → String} : I w → (∀ a ∈ args, V a) →
    text = Atom.display ∨ text = Atom.plain →
    I { w with lines := w.lines.push (" ".intercalate (args.map text)) }
  read {w : World} {atoms : List Atom} : I w → (∀ a ∈ atoms, V a) →
    (Engine.parse atoms w).Meets I V fun x => E x.1 ∧ ∀ a ∈ x.2, V a
  constant {a : Atom} : E (.constant a) → V a
  negate {e : Expr} : E (.negate e) → E e
  binary {op : Operator} {left right : Expr} : E (.binary op left right) → E left ∧ E right
  inputs {p : Procedure} {inputs : List Expr} : E (.call p inputs) → ∀ e ∈ inputs, E e
  defined {p : Procedure} {inputs : List Expr} {d : Definition} : E (.call p inputs) →
    p.body = .defined d → (∀ input ∈ d.optional, ∀ a ∈ input.2, V a) ∧ ∀ a ∈ d.body, V a
  host {p : Procedure} {inputs : List Expr} {act : List Atom → HostAction} :
    E (.call p inputs) → p.body ≠ .host act

/-- An engine that keeps a discipline. -/
structure Obeys (I : World → Prop) (V : Atom → Prop) (E : Expr → Prop) (eng : Engine) : Prop where
  read {atoms : List Atom} : (∀ a ∈ atoms, V a) →
    Gives I V (fun x => E x.1 ∧ ∀ a ∈ x.2, V a) (eng.read atoms)
  execute {code : List Atom} (keep : Bool) : (∀ a ∈ code, V a) →
    Gives I V (Allowed V) (eng.execute code keep)
  force {e : Expr} : E e → Gives I V (Allowed V) (eng.force e)
  invoke {p : Procedure} {inputs : List Expr} : E (.call p inputs) →
    Gives I V (Allowed V) (eng.run (.invoke p inputs))

variable {E : Expr → Prop} {eng : Engine} {args : List Atom} {a : Atom}

/-! ## Inputs -/

namespace Gives

theorem nth (hargs : ∀ a ∈ args, V a) (me : String) (i : Nat) :
    Gives I V V (Input.nth me args i) :=
  .require fun a ha => hargs a (List.mem_of_getElem? ha)

theorem number (a : Atom) (me : String) : Gives I V (fun _ => True) (Input.number me a) :=
  .require fun _ _ => trivial

theorem truth (a : Atom) (me : String) : Gives I V (fun _ => True) (Input.truth me a) :=
  .require fun _ _ => trivial

theorem word (a : Atom) (me : String) : Gives I V (fun _ => True) (Input.word me a) := by
  cases a with
  | list items => exact .fail _
  | number x => exact .done trivial
  | word w => exact .done trivial

theorem numberAt (hargs : ∀ a ∈ args, V a) (me : String) (i : Nat) :
    Gives I V (fun _ => True) (Input.numberAt me args i) :=
  (nth hargs me i).bind fun a _ => number a me

theorem wordAt (hargs : ∀ a ∈ args, V a) (me : String) (i : Nat) :
    Gives I V (fun _ => True) (Input.wordAt me args i) :=
  (nth hargs me i).bind fun a _ => word a me

end Gives

namespace Discipline

theorem ofBool (h : Discipline I V E) (b : Bool) : V (.ofBool b) :=
  h.number _

theorem onTurtle (h : Discipline I V E) (f : Turtle → Turtle) :
    Gives I V (fun _ => True) (Run.onTurtle f) :=
  .modify fun w hw => h.turtle (f w.turtle) hw

theorem items (h : Discipline I V E) (ha : V a) (me : String) :
    Gives I V (fun items => ∀ b ∈ items, V b) (Input.list me a) := by
  refine .require fun items hitems => ?_
  cases a with
  | list xs =>
    obtain rfl : xs = items := Option.some.inj hitems
    exact h.list.mp ha
  | number x => cases hitems
  | word w => cases hitems

theorem listAt (h : Discipline I V E) (hargs : ∀ a ∈ args, V a) (me : String) (i : Nat) :
    Gives I V (fun items => ∀ b ∈ items, V b) (Input.listAt me args i) :=
  (Gives.nth hargs me i).bind fun _ ha => h.items ha me

theorem pointAt (h : Discipline I V E) (hargs : ∀ a ∈ args, V a) (me : String) (i : Nat) :
    Gives I V (fun _ => True) (Input.pointAt me args i) := by
  refine (Gives.nth hargs me i).bind fun a ha => (h.items ha me).bind fun items _ => ?_
  split
  · exact (Gives.number _ me).bind fun _ _ => (Gives.number _ me).bind fun _ _ => .done trivial
  · exact .fail _

end Discipline

/-! ## Engines -/

namespace Obeys

theorem perform (he : Obeys I V E eng) {code : List Atom} (hcode : ∀ a ∈ code, V a) :
    Gives I V (fun _ => True) (eng.perform code) :=
  (he.execute false hcode).bind fun _ _ => .done trivial

theorem demand (he : Obeys I V E eng) {e : Expr} (hexpr : E e) (consumer : String) :
    Gives I V V (eng.demand e consumer) :=
  (he.force hexpr).bind fun _ hv => .require hv

theorem demandList (he : Obeys I V E eng) {items : List Atom} (hitems : ∀ a ∈ items, V a)
    (consumer : String) : Gives I V V (eng.demandList items consumer) :=
  (he.execute true hitems).bind fun _ hv => .require hv

theorem evaluate (he : Obeys I V E eng) {atoms : List Atom} (hatoms : ∀ a ∈ atoms, V a) :
    Gives I V (fun x => Allowed V x.1 ∧ ∀ a ∈ x.2, V a) (eng.evaluate atoms) :=
  (he.read hatoms).bind fun _ hx => (he.force hx.1).bind fun _ hv => .done ⟨hv, hx.2⟩

end Obeys

namespace Discipline

theorem truthFor (h : Discipline I V E) (he : Obeys I V E eng) (ha : V a) (consumer : String) :
    Gives I V (fun _ => True) (eng.truthFor a consumer) := by
  have hsettle : Gives I V V (eng.settle a consumer) := by
    cases a with
    | list items => exact he.demandList (h.list.mp ha) consumer
    | number x => exact .done ha
    | word w => exact .done ha
  exact hsettle.bind fun _ _ => .require fun _ _ => trivial

theorem condition (h : Discipline I V E) (he : Obeys I V E eng) {e : Expr} (hexpr : E e)
    (consumer : String) : Gives I V (fun _ => True) (eng.condition e consumer) :=
  (he.demand hexpr consumer).bind fun _ ha => h.truthFor he ha consumer

end Discipline

end Run

end TurtleLogo
