import TurtleLogo.Proofs.Run.Fuel
import TurtleLogo.Proofs.Parse.Yield

set_option autoImplicit false

/-! # Recursion by itself comes to an end

A program without loops can go on only by calling procedures, and the limit on nested calls bounds
how deep that goes. At a given depth everything it does is bounded by the text: a list of
instructions has as many as it has atoms, an expression has finitely many operands. So every such
program finishes, whatever procedures it has or defines.

The proof goes by induction on how many more calls may be nested. With that many left, a run
`Settles`: from some amount of fuel on it ends in one way. -/

namespace TurtleLogo

variable {α β : Type}

/-! ## Programs without loops -/

/-- The loops are the primitives of these names. -/
example : (Primitive.catalogue.filter fun entry => entry.2.2.isLoop).flatMap (·.1)
    = ["repeat", "forever", "for", "dotimes"] := by decide

example : (Deferred.catalogue.filter fun entry => entry.2.2.isLoop).flatMap (·.1)
    = ["while", "until", "do.while", "do.until"] := by decide

/-- No procedure is a loop. -/
def Registry.Loopless (r : Registry) : Prop :=
  ∀ {name : String} {p : Procedure}, r.get? name = some p → p.isLoop = false

/-- No call is of a loop. -/
def Expr.Loopless (e : Expr) : Prop :=
  e.Calls fun p _ => p.isLoop = false

/-- What is read in a registry without loops calls none, and reading adds none. -/
theorem Registry.Loopless.supports :
    Parse.Supports Registry.Loopless fun p _ => p.isLoop = false :=
  .ofAll fun _ _ => rfl

/-! ## Runs that settle -/

/-- The state of a program without loops while `calls` are running. -/
structure World.Within (calls : Array String) (limit : Nat) (w : World) : Prop where
  calls : w.calls = calls
  limit : w.limit = limit
  loopless : w.procedures.Loopless

/-- On enough fuel the outcome is `o`, which is not that of a run cut off. -/
structure Outcome.Settled (P : World → Prop) (o : Outcome α) (m : Nat → Outcome α) : Prop where
  finished : o ≠ .exhausted
  ends : o.Ends P
  eventually : Outcome.Eventually m o

theorem Outcome.Settled.const {P : World → Prop} {o : Outcome α} (hne : o ≠ .exhausted)
    (hends : o.Ends P) : Settled P o fun _ => o :=
  ⟨hne, hends, .const o⟩

namespace Run

variable {calls : Array String} {limit : Nat}

/-- Started while `calls` are running under `limit`, the runs settle on an outcome. -/
def Settles (calls : Array String) (limit : Nat) (α : Type) (m : Nat → Run α) : Prop :=
  ∀ w, w.Within calls limit → ∃ o, Outcome.Settled (World.Within calls limit) o fun n => m n w

theorem Settles.done {m : Run α} {a : α} {f : World → World} (hm : ∀ w, m w = .done a (f w))
    (hf : ∀ w, w.Within calls limit → (f w).Within calls limit) :
    Settles calls limit α fun _ => m := by
  intro w hw
  simp only [hm]
  exact ⟨_, .const (by simp) (hf w hw)⟩

theorem Settles.exit (e : Exit) : Settles calls limit α fun _ => Run.exit e :=
  fun w hw => ⟨.exit e w, .const (by simp) hw⟩

theorem Settles.attempt {m : Nat → Run α} {f : Nat → Except Exit α → Run β}
    (hm : Settles calls limit α m) (hf : ∀ x, Settles calls limit β fun n => f n x) :
    Settles calls limit β fun n => Run.attempt (m n) (f n) := by
  intro w hw
  obtain ⟨o, hne, hends, hm⟩ := hm w hw
  cases o with
  | exhausted => exact absurd rfl hne
  | exit e w₁ =>
    obtain ⟨o, hne, hends, hf⟩ := hf (.error e) w₁ hends
    exact ⟨o, hne, hends, hm.attempt_exit hf⟩
  | done a w₁ =>
    obtain ⟨o, hne, hends, hf⟩ := hf (.ok a) w₁ hends
    exact ⟨o, hne, hends, hm.attempt_done hf⟩

theorem Settles.bind {m : Nat → Run α} {f : Nat → α → Run β} (hm : Settles calls limit α m)
    (hf : ∀ a, Settles calls limit β fun n => f n a) :
    Settles calls limit β fun n => m n >>= f n := by
  simp only [bind_eq_attempt]
  refine hm.attempt fun x => ?_
  cases x with
  | ok a => exact hf a
  | error e => exact .exit e

/-- Where the amounts of fuel begin does not matter. -/
theorem Settles.of_succ {m : Nat → Run α} (h : Settles calls limit α fun n => m (n + 1)) :
    Settles calls limit α m := by
  intro w hw
  obtain ⟨o, hne, hends, hm⟩ := h w hw
  exact ⟨o, hne, hends, hm.of_succ⟩

theorem Settles.heedAbort : Settles calls limit Unit fun _ => Run.heedAbort := by
  intro w hw
  cases habort : w.aborted with
  | true =>
    simp only [heedAbort_stop habort]
    exact ⟨_, .const (by simp) hw⟩
  | false =>
    simp only [heedAbort_go habort]
    exact ⟨_, .const (by simp) hw⟩

theorem Settles.parse (atoms : List Atom) {k : Nat → Expr × List Atom → Run α}
    (hk : ∀ e rest, e.Loopless → Settles calls limit α fun n => k n (e, rest)) :
    Settles calls limit α fun n => Engine.parse atoms >>= k n := by
  intro w hw
  rcases Engine.parse_cases atoms w with ⟨e, s, hread, hparse⟩ | ⟨f, s, hread, hparse⟩
  · obtain ⟨hregistry, he⟩ := Registry.Loopless.supports.parseExpr_ok hw.loopless hread
    simp only [bind_done hparse]
    exact hk e s.atoms he _ ⟨hw.calls, hw.limit, hregistry⟩
  · obtain ⟨hregistry, -⟩ := Registry.Loopless.supports.parseExpr_fail hw.loopless hread
    simp only [bind_exit hparse]
    exact ⟨_, .const (by simp) ⟨hw.calls, hw.limit, hregistry⟩⟩

theorem Settles.counted (i : Nat) {m : Nat → Run Unit} (hm : Settles calls limit Unit m) :
    Settles calls limit Unit fun n => Act.counted i (m n) := by
  intro w hw
  obtain ⟨o, ho⟩ := hm (Act.withRepcount i w) ⟨hw.calls, hw.limit, hw.loopless⟩
  simp only [Act.counted_apply]
  refine ⟨_, ?_, ?_, ho.eventually.map (Act.restore w.repcount)⟩
  · exact Act.restore_ne_exhausted _ ho.finished
  · exact Act.Ends.restore ho.ends _ fun w₁ hw₁ => ⟨hw₁.calls, hw₁.limit, hw₁.loopless⟩

theorem Settles.framed {m : Nat → Run Unit} (hm : Settles calls limit Unit m) :
    Settles calls limit _ fun n => framed (m n) := by
  intro w hw
  obtain ⟨o, ho⟩ := hm { w with frames := w.frames.push } ⟨hw.calls, hw.limit, hw.loopless⟩
  simp only [framed_apply]
  refine ⟨_, ?_, ?_, ho.eventually.map Outcome.closeFrame⟩
  · exact Outcome.closeFrame_ne_exhausted ho.finished
  · exact ho.ends.closeFrame fun w₁ hw₁ => ⟨hw₁.calls, hw₁.limit, hw₁.loopless⟩

/-- A call that is entered leaves room for one call less. -/
theorem Settles.called {name : String} {m : Nat → Run (Option Atom)}
    (hm : calls.size < limit → Settles (calls.push name) limit _ m) :
    Settles calls limit _ fun n => enter name >>= fun _ => leaving (m n) := by
  intro w hw
  cases habort : w.aborted with
  | true =>
    simp only [bind_exit (enter_aborted habort)]
    exact ⟨_, .const (by simp) hw⟩
  | false =>
    rcases Nat.lt_or_ge w.calls.size w.limit with hdepth | hdeep
    · simp only [bind_done (enter_done habort hdepth), leaving_apply]
      have hroom : calls.size < limit := hw.calls ▸ hw.limit ▸ hdepth
      obtain ⟨o, ho⟩ := hm hroom { w with calls := w.calls.push name }
        ⟨by simp [hw.calls], hw.limit, hw.loopless⟩
      refine ⟨_, ?_, ?_, ho.eventually.map Outcome.closeCall⟩
      · exact Outcome.closeCall_ne_exhausted ho.finished
      · refine ho.ends.closeCall fun w₁ hw₁ => ⟨?_, hw₁.limit, hw₁.loopless⟩
        simp [World.dropCall, hw₁.calls]
    · simp only [bind_exit (enter_tooDeep habort hdeep)]
      exact ⟨_, .const (by simp) hw⟩

theorem Settles.compatible (calls : Array String) (limit : Nat) :
    Compatible 0 Expr.Loopless (Settles calls limit) where
  done a := .done (fun _ => rfl) fun _ hw => hw
  bind := Settles.bind
  fail cause _ := .exit (.fault { cause })
  stop := .exit .stop
  output a := .exit (.output a)
  heedAbort := Settles.heedAbort
  look view _ _ hk w hw := hk (view w) w hw
  onTurtle _ := .done (fun _ => rfl) fun _ hw => ⟨hw.calls, hw.limit, hw.loopless⟩
  assign _ _ := .done (fun _ => rfl) fun _ hw => ⟨hw.calls, hw.limit, hw.loopless⟩
  bindLocal _ _ := .done (fun _ => rfl) fun _ hw => ⟨hw.calls, hw.limit, hw.loopless⟩
  declareLocal _ := .done (fun _ => rfl) fun _ hw => ⟨hw.calls, hw.limit, hw.loopless⟩
  setTest _ := .done (fun _ => rfl) fun _ hw => ⟨hw.calls, hw.limit, hw.loopless⟩
  write _ := .done (fun _ => rfl) fun _ hw => ⟨hw.calls, hw.limit, hw.loopless⟩
  setAborted _ := .done (fun _ => rfl) fun _ hw => ⟨hw.calls, hw.limit, hw.loopless⟩
  counted i _ hm := hm.counted i
  parse atoms _ hk := Settles.parse atoms hk
  negate | .negate h => h
  binary | .binary _ hleft hright => ⟨hleft, hright⟩
  inputs | .call _ hinputs => hinputs
  supplied _ := Or.inr fun _ me => .exit (.fault { cause := .inputMissing me })
  loops
    | .call h _, hloop => by
      rw [h] at hloop
      cases hloop

theorem Settles.attempts (calls : Array String) (limit : Nat) :
    Compatible.Attempts (fun _ => True) (Settles calls limit) where
  made _ _ _ := trivial
  exit {_ e} _ := .exit e
  attempt hm hok herror := hm.attempt fun
    | .ok a => hok a
    | .error e => herror e trivial

/-! ## Jobs -/

/-- One call deeper, procedures settle. -/
def Invokes (calls : Array String) (limit : Nat) : Prop :=
  ∀ {p : Procedure} {inputs : List Expr}, (Expr.call p inputs).Loopless → calls.size < limit →
    Settles (calls.push p.name) limit _ fun n => interpret n (.invoke p inputs)

theorem Settles.step {job : Job} (h : Settles calls limit _ fun n => step (engineOn n) job) :
    Settles calls limit _ fun n => interpret n job := by
  refine Settles.of_succ (m := fun n => interpret n job) ?_
  simp only [interpret_eq_step]
  exact h

theorem Invokes.call (h : Invokes calls limit) {p : Procedure} {inputs : List Expr}
    (hs : (Expr.call p inputs).Loopless) :
    Settles calls limit _ fun n => TurtleLogo.call (engineOn n) p inputs :=
  Settles.called (h hs)

theorem Invokes.force (h : Invokes calls limit) (e : Expr) :
    e.Loopless → Settles calls limit _ fun n => interpret n (.force e) := by
  have hcompatible := Settles.compatible calls limit
  -- Operands are evaluated at the same depth, but they are smaller; calls go deeper.
  induction e using Expr.operand_induction with
  | h e ih =>
    intro hs
    refine Settles.step (hcompatible.force (fun e' hmem => ?_) fun p inputs heq => ?_)
    · exact ih e' hmem (hcompatible.operands hs e' hmem)
    · exact h.call (heq ▸ hs)

/-- If procedures settle one call deeper, everything settles here. -/
theorem Invokes.engines (h : Invokes calls limit) :
    Engines 0 Expr.Loopless (Settles calls limit) engineOn := by
  have hcompatible := Settles.compatible calls limit
  have hevaluators : Evaluators Expr.Loopless (Settles calls limit) engineOn :=
    ⟨fun atoms _ hk => hcompatible.parse atoms hk, fun {e} hs => h.force e hs⟩
  refine ⟨hevaluators, fun code keep => ?_, h.call, fun n => Nat.zero_le n⟩
  exact Settles.step (hcompatible.instructions hevaluators keep code.length none code)

/-- Everything settles, whatever is running: the limit leaves room for finitely many more calls. -/
theorem engines_settle (limit : Nat) (room : Nat) : ∀ calls : Array String,
    limit ≤ calls.size + room → Engines 0 Expr.Loopless (Settles calls limit) engineOn := by
  induction room with
  | zero =>
    -- Every call is refused.
    intro calls hroom
    exact Invokes.engines fun _ hlt => by omega
  | succ room ih =>
    intro calls hroom
    refine Invokes.engines fun {p inputs} hs hlt => Settles.step ?_
    have hdeeper := ih (calls.push p.name) (by rw [Array.size_push]; omega)
    have hcompatible := Settles.compatible (calls.push p.name) limit
    exact hcompatible.invoke Settles.framed
      (hcompatible.respectsHosts (Settles.attempts _ limit)) hdeeper hs

end Run

/-- Every program finishes that runs in a registry without `REPEAT`, `FOREVER`, `FOR`, `DOTIMES`,
`WHILE`, `UNTIL`, `DO.WHILE` and `DO.UNTIL`, whatever procedures call themselves or each other in
it, and whatever the program defines anew. It leaves such a registry, so the next one finishes,
too. -/
theorem execute_finishes_of_loopless {w : World} (h : w.procedures.Loopless) (code : List Atom)
    (keep : Bool) :
    ∃ o, Finishes (.execute code keep) w o ∧ o.Ends fun w' => w'.procedures.Loopless := by
  have hengines := Run.engines_settle w.limit w.limit w.calls (Nat.le_add_left _ _)
  obtain ⟨o, hfinished, hends, fuel, hfuel⟩ := hengines.execute code keep w ⟨rfl, rfl, h⟩
  refine ⟨o, ⟨hfinished, fuel, hfuel fuel (Nat.le_refl _)⟩, ?_⟩
  exact hends.imp fun w' hw' => hw'.loopless

/-- `TO F F END`, after which `F` calls itself without end but for the limit. -/
theorem execute_finishes_of_loopless_recursive :
    Registry.Loopless ⟨[("to", ⟨"TO", .definer, .fixed 0⟩)]⟩ ∧
    ∃ o, Finishes (.execute [.word "to", .word "f", .word "f", .word "end", .word "f"] false)
        { procedures := ⟨[("to", ⟨"TO", .definer, .fixed 0⟩)]⟩ } o ∧
      o.Ends fun w' => w'.procedures.Loopless := by
  have h : Registry.Loopless ⟨[("to", ⟨"TO", .definer, .fixed 0⟩)]⟩ := by
    intro name p hget
    simp only [NameTable.get?, List.lookup_cons, List.lookup_nil] at hget
    split at hget
    · rw [← Option.some.inj hget]
      rfl
    · cases hget
  exact ⟨h, execute_finishes_of_loopless h _ _⟩

end TurtleLogo
