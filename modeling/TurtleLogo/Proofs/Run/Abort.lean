import TurtleLogo.Proofs.Run.Fuel
import TurtleLogo.Proofs.Parse.Effect

set_option autoImplicit false

/-! # Programs that are asked to stop

Once the host has asked a program to stop, the program does nothing any more. It still reads and
evaluates, until it comes to a call or to `TO`, and there it ends with a fault; but what it can do
before that leaves no trace in the state.

To say where a program comes to a call or to `TO`, the run is compared with one that nobody has
asked to stop but that has no room for a single call (`World.barred`). The two go the same way until
both are refused at the same place, each with the fault for its reason. -/

namespace TurtleLogo

variable {α β : Type}

/-! ## Reading -/

namespace Parse

/-- The same context, where there is no room for a call and nobody has asked for a stop. -/
def Context.barred (ctx : Context) : Context :=
  { ctx with limit := 0, aborted := false }

/-- How reading ends where the program is asked to stop, and how it ends where there is no room for
a call. Both come to a `TO`, or else to the same end; and the registry is still `r`. -/
inductive Result.Frozen (calls : Array String) (r : Registry) : Result α → Result α → Prop where
  | ok {a : α} {s : State} : s.registry = r → Frozen calls r (.ok a s) (.ok a s)
  | fault {cause : Cause} {s : State} : cause.isReserved = false → s.registry = r →
    Frozen calls r (.fail { cause } s) (.fail { cause } s)
  | refused {s : State} : s.registry = r →
    Frozen calls r (.fail { cause := .aborted } s)
      (.fail { cause := .tooDeep 0, stack := calls.toList } s)

/-- The first reads where the program is asked to stop what the second reads where there is no room
for a call. -/
def Freezes (α : Type) (m m' : Parse α) : Prop :=
  ∀ ctx s, ctx.aborted = true → (m ctx s).Frozen ctx.calls s.registry (m' ctx.barred s)

theorem Freezes.bind {m m' : Parse α} {f f' : α → Parse β} (hm : Freezes α m m')
    (hf : ∀ a, Freezes β (f a) (f' a)) : Freezes β (m >>= f) (m' >>= f') := by
  intro ctx s habort
  have hs := hm ctx s habort
  rw [bind_apply, bind_apply]
  generalize m ctx s = o, m' ctx.barred s = o' at hs
  cases hs with
  | @ok a s₁ hr =>
    have hrest := hf a ctx s₁ habort
    rw [hr] at hrest
    exact hrest
  | fault hcause hr => exact .fault hcause hr
  | refused hr => exact .refused hr

theorem Freezes.callOf (name : String) {inputs inputs' : Procedure → Parse Expr}
    (h : ∀ p, Freezes Expr (inputs p) (inputs' p)) :
    Freezes Expr (Parse.callOf name inputs) (Parse.callOf name inputs') := by
  intro ctx s habort
  cases hget : s.registry.get? name with
  | none =>
    rw [callOf_none hget, callOf_none hget]
    exact .fault rfl rfl
  | some p =>
    by_cases hbody : p.body = .definer
    · rw [callOf_definer hget hbody, callOf_definer hget hbody]
      rw [define_aborted habort, define_tooDeep rfl (Nat.zero_le _)]
      exact .refused rfl
    · rw [callOf_inputs hget hbody, callOf_inputs hget hbody]
      exact h p ctx s habort

theorem Freezes.takeOperator (level : Level) :
    Freezes _ (Parse.takeOperator level) (Parse.takeOperator level) := by
  intro ctx s _
  rcases takeOperator_cases level ctx s with ⟨_, ts, op, -, -, -, htake⟩ | ⟨-, htake⟩
  · rw [show Parse.takeOperator level ctx.barred s = Parse.takeOperator level ctx s from rfl, htake]
    exact .ok rfl
  · rw [show Parse.takeOperator level ctx.barred s = Parse.takeOperator level ctx s from rfl, htake]
    exact .ok rfl

theorem Freezes.calledOr {call call' : String → Parse Expr} {other other' : Parse Expr}
    (hcall : ∀ name, Freezes Expr (call name) (call' name)) (hother : Freezes Expr other other') :
    Freezes Expr (Parse.calledOr call other) (Parse.calledOr call' other') := by
  intro ctx s habort
  unfold Parse.calledOr
  split
  · next name hname => exact hcall name ctx { s with atoms := s.atoms.tail } habort
  · exact hother ctx s habort

theorem Freezes.congruence : Congruence Freezes fun _ => Freezes Expr where
  ok _ _ _ _ := .ok rfl
  fail _ hcause _ _ _ := .fault hcause rfl
  bind := Freezes.bind
  peek _ _ _ := .ok rfl
  skip _ _ _ := .ok rfl
  nextIs _ _ _ _ := .ok rfl
  takeOperator := Freezes.takeOperator
  next h := Freezes.bind (fun _ _ _ => .ok rfl) h
  later h := h
  call := Freezes.callOf
  calledOr := Freezes.calledOr

end Parse

/-! ## Running -/

/-- The same state, where there is no room for a call and nobody has asked for a stop. -/
def World.barred (w : World) : World :=
  { w with limit := 0, aborted := false }

/-- How a run ends that is asked to stop, and how it ends where there is no room for a call. Both
come to a call or a `TO`, or else to the same end; and the state is the one it began in. -/
inductive Outcome.Frozen (w : World) : Outcome α → Outcome α → Prop where
  | done (a : α) : Frozen w (.done a w) (.done a w.barred)
  | fault {cause : Cause} : cause.isReserved = false →
    Frozen w (.exit (.fault { cause }) w) (.exit (.fault { cause }) w.barred)
  | refused : Frozen w (.exit (.fault { cause := .aborted }) w)
      (.exit (.fault { cause := .tooDeep 0, stack := w.calls.toList }) w.barred)

namespace Run

/-- On enough fuel the runs end, in the state they began in if they are asked to stop there, and
come to a call or a `TO` if and only if they do so where there is no room for a call. -/
def Freezes (α : Type) (m : Nat → Run α) : Prop :=
  ∀ w, w.aborted = true → ∃ o o', Outcome.Frozen w o o' ∧
    Outcome.Eventually (fun n => m n w) o ∧ Outcome.Eventually (fun n => m n w.barred) o'

theorem Freezes.bind {m : Nat → Run α} {f : Nat → α → Run β} (hm : Freezes α m)
    (hf : ∀ a, Freezes β fun n => f n a) : Freezes β fun n => m n >>= f n := by
  intro w habort
  obtain ⟨_, _, hfrozen, hstop, hroom⟩ := hm w habort
  cases hfrozen with
  | done a =>
    obtain ⟨o, o', hrest, hstop', hroom'⟩ := hf a w habort
    exact ⟨o, o', hrest, hstop.bind_done hstop', hroom.bind_done hroom'⟩
  | fault hcause => exact ⟨_, _, .fault hcause, hstop.bind_exit, hroom.bind_exit⟩
  | refused => exact ⟨_, _, .refused, hstop.bind_exit, hroom.bind_exit⟩

theorem Freezes.evaluable : Evaluable (fun _ => True) Freezes where
  done a _ _ := ⟨_, _, .done a, .const _, .const _⟩
  bind := Freezes.bind
  fail _ hcause _ _ := ⟨_, _, .fault hcause, .const _, .const _⟩
  value name _ hk w habort := hk (w.value? name) w habort
  negate _ := trivial
  binary _ := ⟨trivial, trivial⟩

theorem Freezes.parse (atoms : List Atom) : Freezes _ fun _ => Engine.parse atoms := by
  intro w habort
  have hread : (parseExpr w.parseContext ⟨atoms, w.procedures⟩).Frozen w.calls w.procedures
      (parseExpr w.barred.parseContext ⟨atoms, w.barred.procedures⟩) :=
    Parse.Freezes.congruence.expression atoms.length w.parseContext ⟨atoms, w.procedures⟩ habort
  refine ⟨_, _, ?_, .const _, .const _⟩
  unfold Engine.parse
  generalize parseExpr w.parseContext ⟨atoms, w.procedures⟩ = o,
    parseExpr w.barred.parseContext ⟨atoms, w.barred.procedures⟩ = o' at hread
  cases hread with
  | ok hr =>
    simp only [hr]
    exact .done _
  | fault hcause hr =>
    simp only [hr]
    exact .fault hcause
  | refused hr =>
    simp only [hr]
    exact .refused

/-- No call is entered. -/
theorem Freezes.call (p : Procedure) (inputs : List Expr) :
    Freezes _ fun n => TurtleLogo.call (engineOn n) p inputs := by
  intro w habort
  -- Both are refused before any fuel is spent.
  refine ⟨_, _, .refused, ⟨0, fun n _ => ?_⟩, ⟨0, fun n _ => ?_⟩⟩
  · exact bind_exit (enter_aborted habort) _
  · exact bind_exit (enter_tooDeep rfl (Nat.zero_le _)) _

theorem Freezes.step {job : Job} (h : Freezes _ fun n => step (engineOn n) job) :
    Freezes _ fun n => interpret n job := by
  intro w habort
  obtain ⟨o, o', hfrozen, hstop, hroom⟩ := h w habort
  refine ⟨o, o', hfrozen, .of_succ ?_, .of_succ ?_⟩
  · simp only [interpret_eq_step]
    exact hstop
  · simp only [interpret_eq_step]
    exact hroom

theorem Freezes.force (e : Expr) : Freezes _ fun n => (engineOn n).force e := by
  induction e using Expr.operand_induction with
  | h e ih =>
    refine Freezes.step (Freezes.evaluable.force ih fun p inputs _ => ?_)
    exact Freezes.call p inputs

theorem Freezes.evaluators : Evaluators (fun _ => True) Freezes engineOn where
  read atoms _ hk := (Freezes.parse atoms).bind fun x => hk x.1 x.2 trivial
  force {e} _ := Freezes.force e

theorem Freezes.execute (code : List Atom) (keep : Bool) :
    Freezes _ fun n => (engineOn n).execute code keep :=
  Freezes.step (Freezes.evaluable.instructions Freezes.evaluators keep code.length none code)

/-- Started in `w`, the runs come to a call or a `TO`: without room for either, that is where they
end. -/
def Reaches (m : Nat → Run α) (w : World) : Prop :=
  ∃ stack w', Outcome.Eventually (fun n => m n w.barred)
    (.exit (.fault { cause := .tooDeep 0, stack }) w')

/-- Started in `w`, the runs end on enough fuel and leave the state as it is. They end with a value,
or with a fault, which is that of a program asked to stop if they come to a call or a `TO`, and only
then. -/
def LeavesAsIs (m : Nat → Run α) (w : World) : Prop :=
  ∃ o, Outcome.Eventually (fun n => m n w) o ∧
    ((∃ a, o = .done a w) ∨ ∃ cause, o = .exit (.fault { cause }) w) ∧
    (Reaches m w ↔ o = .exit (.fault { cause := .aborted }) w)

theorem Freezes.leavesAsIs {m : Nat → Run α} (h : Freezes α m) {w : World}
    (habort : w.aborted = true) : LeavesAsIs m w := by
  obtain ⟨_, _, hfrozen, hstop, hroom⟩ := h w habort
  refine ⟨_, hstop, ?_, ?_⟩
  · cases hfrozen with
    | done a => exact Or.inl ⟨a, rfl⟩
    | fault _ => exact Or.inr ⟨_, rfl⟩
    | refused => exact Or.inr ⟨_, rfl⟩
  · constructor
    · rintro ⟨stack, w', hreach⟩
      have hsame := hroom.unique hreach
      cases hfrozen with
      | done a => cases hsame
      | fault hcause =>
        -- Nobody else raises the fault of a call without room.
        simp only [Outcome.exit.injEq, Exit.fault.injEq, Fault.mk.injEq] at hsame
        rw [hsame.1.1] at hcause
        cases hcause
      | refused => rfl
    · intro haborted
      cases hfrozen with
      | done a => cases haborted
      | fault hcause =>
        simp only [Outcome.exit.injEq, Exit.fault.injEq, Fault.mk.injEq] at haborted
        rw [haborted.1.1] at hcause
        cases hcause
      | refused => exact ⟨_, _, hroom⟩

end Run

/-- A program that is asked to stop ends, and does nothing: in a state in which that has been asked,
executing instructions, evaluating the first expression of some atoms, and forcing an expression for
nothing, for a value or for a truth value all come to an end and leave the state exactly as it is.
They never end with `OUTPUT` or `STOP`. Every call and every `TO` is refused with the fault of a
program asked to stop, and they end with this fault if and only if they come to a call or a `TO`. -/
theorem aborted_leaves_as_is {w : World} (habort : w.aborted = true) (code atoms : List Atom)
    (keep : Bool) (e : Expr) (consumer : String) :
    (Run.LeavesAsIs (fun fuel => (engineOn fuel).execute code keep) w ∧
      Run.LeavesAsIs (fun fuel => (engineOn fuel).evaluate atoms) w ∧
      Run.LeavesAsIs (fun fuel => (engineOn fuel).force e) w ∧
      Run.LeavesAsIs (fun fuel => (engineOn fuel).demand e consumer) w ∧
      Run.LeavesAsIs (fun fuel => (engineOn fuel).condition e consumer) w) ∧
    (∀ p inputs fuel, call (engineOn fuel) p inputs w = .exit (.fault { cause := .aborted }) w) ∧
    ∀ definer s, Parse.define definer w.parseContext s = .fail { cause := .aborted } s := by
  have hevaluable := Run.Freezes.evaluable
  have hexecute := Run.Freezes.execute
  have hforce := Run.Freezes.force e
  refine ⟨⟨?_, ?_, ?_, ?_, ?_⟩, fun p inputs fuel => ?_, fun definer s => ?_⟩
  · exact (hexecute code keep).leavesAsIs habort
  · exact (hevaluable.evaluate Run.Freezes.evaluators atoms).leavesAsIs habort
  · exact hforce.leavesAsIs habort
  · exact (hevaluable.demand hforce consumer).leavesAsIs habort
  · have hcondition := hevaluable.condition (fun items => hexecute items true) hforce consumer
    exact hcondition.leavesAsIs habort
  · exact Run.bind_exit (enter_aborted habort) _
  · exact Parse.define_aborted habort

/-- A program that is asked to stop comes to the call of `F`, and ends there. -/
theorem aborted_leaves_as_is_call : ∃ w : World,
    w.procedures = ⟨[("f", ⟨"F", .defined ⟨[], [], none, 0, []⟩, .fixed 0⟩)]⟩ ∧
    w.aborted = true ∧
    Finishes (.execute [.word "f"] false) w (.exit (.fault { cause := .aborted }) w) := by
  refine ⟨{ procedures := _, aborted := true }, rfl, rfl, ?_⟩
  obtain ⟨⟨⟨o, hends, -, hreaches⟩, -⟩, -⟩ :=
    aborted_leaves_as_is (w := {
      procedures := ⟨[("f", ⟨"F", .defined ⟨[], [], none, 0, []⟩, .fixed 0⟩)]⟩, aborted := true })
      rfl [.word "f"] [] false .nothing ""
  have hcall := hreaches.mp ⟨_, _, Finishes.eventually ⟨by simp, 3, rfl⟩⟩
  obtain ⟨fuel, hfuel⟩ := hcall ▸ hends
  exact ⟨by simp, fuel, hfuel fuel (Nat.le_refl fuel)⟩

end TurtleLogo
