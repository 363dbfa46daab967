import TurtleLogo.Proofs.Parse.Arity
import TurtleLogo.Proofs.Run.Basic

set_option autoImplicit false

/-! # Properties that running respects

A fact about all runs is proved by going once through everything that a program can do. That walk is
the same for every such fact, so it is done for an arbitrary property of runs: `Compatible` lists
what has to be shown of the few operations that touch the state, and
`TurtleLogo.Proofs.Run.Interpret` concludes the property for every job. Where no call is ever
entered, only evaluation is gone through, and `Evaluable` lists what that takes.

The property is one of a family of runs: of the same piece of program on several engines. A family
of one is a run by itself, a family of two compares two runs. Engines may differ in how long they go
on, and `least` is the one that gives up first.

The walk may rely on the expressions that are evaluated being `Sound`, if all that reading gives
are; with this, the cases of a missing input need not be considered. -/

namespace TurtleLogo

/-- A view of the state that shows neither the limit on nested calls nor the lines written. Programs
have no other views. -/
def World.Visible {β : Type} (view : World → β) : Prop :=
  ∀ (w : World) (limit : Nat) (lines : Array String), view { w with limit, lines } = view w

/-- Whether a primitive goes on for a number of rounds. -/
def Primitive.isLoop : Primitive → Bool
  | repeatTimes | forever | forRange | doTimes => true
  | _ => false

/-- Whether a primitive goes on for a number of rounds. -/
def Deferred.isLoop : Deferred → Bool
  | whileLoop | untilLoop | doWhile | doUntil => true
  | conjunction | disjunction => false

/-- Whether the procedure is a loop. -/
def Procedure.isLoop (p : Procedure) : Bool :=
  match p.body with
  | .primitive q => q.isLoop
  | .deferred q => q.isLoop
  | .definer | .host _ | .defined _ => false

/-- The expressions of a job are sound. -/
def Job.Sound (Sound : Expr → Prop) : Job → Prop
  | execute _ _ => True
  | force e => Sound e
  | invoke p inputs => Sound (.call p inputs)

namespace Run

variable {ι : Type}

/-- Of `count` inputs there are `n`, or it is no matter if there are not. -/
def Supplied (R : (α : Type) → (ι → Run α) → Prop) (n count : Nat) : Prop :=
  n ≤ count ∨ ∀ (α : Type) (me : String), R α fun _ => Run.fail (.inputMissing me)

/-- A property of families of runs that evaluating sound expressions respects, calls apart. -/
structure Evaluable (Sound : Expr → Prop) (R : (α : Type) → (ι → Run α) → Prop) : Prop where
  done {α : Type} (a : α) : R α fun _ => Pure.pure a
  bind {α β : Type} {m : ι → Run α} {f : ι → α → Run β} :
    R α m → (∀ a, R β fun i => f i a) → R β fun i => m i >>= f i
  fail {α : Type} (cause : Cause) : cause.isReserved = false → R α fun _ => Run.fail cause
  value {α : Type} (name : String) {k : ι → Option Atom → Run α} :
    (∀ a, R α fun i => k i a) → R α fun i w => k i (w.value? name) w
  negate {e : Expr} : Sound (.negate e) → Sound e
  binary {op : Operator} {left right : Expr} :
    Sound (.binary op left right) → Sound left ∧ Sound right

/-- A property that a run has if the engine that gives up first is cut off in it: it says nothing
about how runs that go on for longer end. -/
def CutsOff (least : ι) (R : (α : Type) → (ι → Run α) → Prop) : Prop :=
  ∀ {α : Type} {m : ι → Run α}, (∀ w, m least w = .exhausted) → R α m

/-- A property of families of runs that everything a program is made of respects, calls apart, as
long as the expressions in it are sound. -/
structure Compatible (least : ι) (Sound : Expr → Prop) (R : (α : Type) → (ι → Run α) → Prop) :
    Prop extends Evaluable Sound R where
  stop {α : Type} : R α fun _ => Run.exit .stop
  output {α : Type} (a : Atom) : R α fun _ => Run.exit (.output a)
  heedAbort : R Unit fun _ => Run.heedAbort
  look {α β : Type} (view : World → β) (hview : World.Visible view) {k : ι → β → Run α} :
    (∀ b, R α fun i => k i b) → R α fun i w => k i (view w) w
  value {_} name {_} hk := look (fun w => w.value? name) (fun _ _ _ => rfl) hk
  onTurtle (f : Turtle → Turtle) : R Unit fun _ => Run.onTurtle f
  assign (name : String) (a : Atom) : R Unit fun _ => Run.modify (·.assign name a)
  bindLocal (name : String) (a : Atom) : R Unit fun _ => Run.onFrames (·.bindLocal name a)
  declareLocal (name : String) : R Unit fun _ => Run.onFrames (·.declareLocal name)
  setTest (flag : Option Bool) : R Unit fun _ => Run.onFrames (·.setTest flag)
  write (line : String) : R Unit fun _ => Run.modify fun w => { w with lines := w.lines.push line }
  setAborted (flag : Bool) : R Unit fun _ => Run.modify fun w => { w with aborted := flag }
  counted (n : Nat) {m : ι → Run Unit} : R Unit m → R Unit fun i => Act.counted n (m i)
  /-- What is read is sound. -/
  parse {α : Type} (atoms : List Atom) {k : ι → Expr × List Atom → Run α} :
    (∀ e rest, Sound e → R α fun i => k i (e, rest)) → R α fun i => Engine.parse atoms >>= k i
  inputs {p : Procedure} {es : List Expr} : Sound (.call p es) → ∀ e ∈ es, Sound e
  supplied {p : Procedure} {es : List Expr} : Sound (.call p es) → Supplied R p.needs es.length
  /-- A loop may be cut off after any number of rounds. -/
  loops {p : Procedure} {es : List Expr} : Sound (.call p es) → p.isLoop = true → CutsOff least R

/-- Engines that read sound expressions and evaluate them as the property has it. -/
structure Evaluators (Sound : Expr → Prop) (R : (α : Type) → (ι → Run α) → Prop)
    (eng : ι → Engine) : Prop where
  read {α : Type} (atoms : List Atom) {k : ι → Expr × List Atom → Run α} :
    (∀ e rest, Sound e → R α fun i => k i (e, rest)) → R α fun i => (eng i).read atoms >>= k i
  force {e : Expr} : Sound e → R _ fun i => (eng i).force e

/-- Engines that run instructions, evaluate sound expressions and make sound calls as the property
has it. -/
structure Engines (least : ι) (Sound : Expr → Prop) (R : (α : Type) → (ι → Run α) → Prop)
    (eng : ι → Engine) : Prop extends Evaluators Sound R eng where
  execute (code : List Atom) (keep : Bool) : R _ fun i => (eng i).execute code keep
  call {p : Procedure} {inputs : List Expr} : Sound (.call p inputs) →
    R _ fun i => TurtleLogo.call (eng i) p inputs
  rounds (i : ι) : (eng least).rounds ≤ (eng i).rounds

variable {least : ι} {Sound : Expr → Prop} {R : (α : Type) → (ι → Run α) → Prop} {eng : ι → Engine}

theorem Supplied.pred {n count : Nat} (h : Supplied R (n + 1) count) : Supplied R n count :=
  h.imp_left Nat.le_of_succ_le

theorem Supplied.fail {n count : Nat} {α : Type} (h : Supplied R n count) (hlt : count < n)
    (me : String) : R α fun _ => Run.fail (.inputMissing me) := by
  rcases h with hle | hmissing
  · omega
  · exact hmissing α me

/-- Amounts that are all positive are one more than others. -/
theorem exists_succ {rounds : ι → Nat} {n : Nat} (hle : ∀ i, n + 1 ≤ rounds i) :
    ∃ rounds' : ι → Nat, rounds = (fun i => rounds' i + 1) ∧ ∀ i, n ≤ rounds' i := by
  refine ⟨fun i => rounds i - 1, funext fun i => ?_, fun i => ?_⟩
  · exact (Nat.sub_add_cancel (Nat.le_of_add_left_le (hle i))).symm
  · exact Nat.le_sub_of_add_le (hle i)

namespace Evaluable

theorem require {α : Type} (h : Evaluable Sound R) (cause : Cause)
    (hcause : cause.isReserved = false) (a : Option α) : R α fun _ => Run.require cause a := by
  cases a with
  | none => exact h.fail cause hcause
  | some a => exact h.done a

theorem demand (h : Evaluable Sound R) {e : Expr} (hforce : R _ fun i => (eng i).force e)
    (consumer : String) : R _ fun i => (eng i).demand e consumer :=
  h.bind hforce fun v => h.require _ rfl v

theorem demandList (h : Evaluable Sound R) {items : List Atom}
    (hexecute : R _ fun i => (eng i).execute items true) (consumer : String) :
    R _ fun i => (eng i).demandList items consumer :=
  h.bind hexecute fun v => h.require _ rfl v

section
variable (hexecute : ∀ items, R _ fun i => (eng i).execute items true)
include hexecute

theorem settle (h : Evaluable Sound R) (a : Atom) (consumer : String) :
    R _ fun i => (eng i).settle a consumer := by
  cases a with
  | list items => exact h.demandList (hexecute items) consumer
  | number x => exact h.done _
  | word w => exact h.done _

theorem truthFor (h : Evaluable Sound R) (a : Atom) (consumer : String) :
    R _ fun i => (eng i).truthFor a consumer :=
  h.bind (h.settle hexecute a consumer) fun v => h.require _ rfl v.truth?

theorem condition {e : Expr} (h : Evaluable Sound R) (hforce : R _ fun i => (eng i).force e)
    (consumer : String) : R _ fun i => (eng i).condition e consumer :=
  h.bind (h.demand hforce consumer) fun a => h.truthFor hexecute a consumer

end

theorem evaluate (h : Evaluable Sound R) (he : Evaluators Sound R eng) (atoms : List Atom) :
    R _ fun i => (eng i).evaluate atoms :=
  he.read atoms fun _ rest hs => h.bind (he.force hs) fun v => h.done (v, rest)

end Evaluable

namespace Compatible

/-! ## Inputs -/

theorem nth (h : Compatible least Sound R) (me : String) (args : List Atom) (i : Nat)
    (hargs : Supplied R (i + 1) args.length) : R _ fun _ => Input.nth me args i := by
  unfold Input.nth
  cases hget : args[i]? with
  | some a => exact h.done a
  | none =>
    have hle : args.length ≤ i := List.getElem?_eq_none_iff.mp hget
    exact hargs.fail (Nat.lt_succ_of_le hle) me

theorem number (h : Compatible least Sound R) (me : String) (a : Atom) :
    R _ fun _ => Input.number me a :=
  h.require _ rfl _

theorem list (h : Compatible least Sound R) (me : String) (a : Atom) :
    R _ fun _ => Input.list me a :=
  h.require _ rfl _

theorem truth (h : Compatible least Sound R) (me : String) (a : Atom) :
    R _ fun _ => Input.truth me a :=
  h.require _ rfl _

theorem word (h : Compatible least Sound R) (me : String) (a : Atom) :
    R _ fun _ => Input.word me a := by
  cases a with
  | list items => exact h.fail _ rfl
  | number x => exact h.done _
  | word w => exact h.done _

theorem point (h : Compatible least Sound R) (me : String) (a : Atom) :
    R _ fun _ => Input.point me a := by
  refine h.bind (h.list me a) fun items => ?_
  split
  · exact h.bind (h.number me _) fun x => h.bind (h.number me _) fun y => h.done _
  · exact h.fail _ rfl

theorem numberAt (h : Compatible least Sound R) (me : String) (args : List Atom) (i : Nat)
    (hargs : Supplied R (i + 1) args.length) : R _ fun _ => Input.numberAt me args i :=
  h.bind (h.nth me args i hargs) fun a => h.number me a

theorem listAt (h : Compatible least Sound R) (me : String) (args : List Atom) (i : Nat)
    (hargs : Supplied R (i + 1) args.length) : R _ fun _ => Input.listAt me args i :=
  h.bind (h.nth me args i hargs) fun a => h.list me a

theorem wordAt (h : Compatible least Sound R) (me : String) (args : List Atom) (i : Nat)
    (hargs : Supplied R (i + 1) args.length) : R _ fun _ => Input.wordAt me args i :=
  h.bind (h.nth me args i hargs) fun a => h.word me a

theorem pointAt (h : Compatible least Sound R) (me : String) (args : List Atom) (i : Nat)
    (hargs : Supplied R (i + 1) args.length) : R _ fun _ => Input.pointAt me args i :=
  h.bind (h.nth me args i hargs) fun a => h.point me a

/-! ## Engines -/

theorem perform (h : Compatible least Sound R) (he : Engines least Sound R eng) (code : List Atom) :
    R _ fun i => (eng i).perform code :=
  h.bind (he.execute code false) fun _ => h.done ()

theorem demand (h : Compatible least Sound R) (he : Engines least Sound R eng) {e : Expr}
    (hs : Sound e) (consumer : String) : R _ fun i => (eng i).demand e consumer :=
  h.toEvaluable.demand (he.force hs) consumer

theorem demandList (h : Compatible least Sound R) (he : Engines least Sound R eng)
    (items : List Atom) (consumer : String) : R _ fun i => (eng i).demandList items consumer :=
  h.toEvaluable.demandList (he.execute items true) consumer

theorem truthFor (h : Compatible least Sound R) (he : Engines least Sound R eng) (a : Atom)
    (consumer : String) : R _ fun i => (eng i).truthFor a consumer :=
  h.toEvaluable.truthFor (fun items => he.execute items true) a consumer

theorem condition (h : Compatible least Sound R) (he : Engines least Sound R eng) {e : Expr}
    (hs : Sound e) (consumer : String) : R _ fun i => (eng i).condition e consumer :=
  h.toEvaluable.condition (fun items => he.execute items true) (he.force hs) consumer

theorem evaluate (h : Compatible least Sound R) (he : Engines least Sound R eng) (atoms : List Atom)
    : R _ fun i => (eng i).evaluate atoms :=
  h.toEvaluable.evaluate he.toEvaluators atoms

end Compatible

end Run

end TurtleLogo
