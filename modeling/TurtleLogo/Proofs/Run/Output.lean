import TurtleLogo.Proofs.Run.Congruence

set_option autoImplicit false

/-! # Lines that were written before

A program cannot read what it has written. Put any lines before those that a state has, and a run
from it goes the same way and ends the same way, with the new lines behind all others. -/

namespace TurtleLogo

variable {α β : Type}

/-- The same state with lines that were written before all others. -/
def World.after (before : Array String) (w : World) : World :=
  { w with lines := before ++ w.lines }

/-- The same end, in the same state with lines that were written before all others. -/
def Outcome.after (before : Array String) : Outcome α → Outcome α
  | .done a w => .done a (w.after before)
  | .exit e w => .exit e (w.after before)
  | .exhausted => .exhausted

namespace Run

/-- Unless the first run is cut off, the second is the same behind lines written before. -/
def Continues (α : Type) (m m' : Run α) : Prop :=
  ∀ (before : Array String) (w : World),
    m w = .exhausted ∨ m' (w.after before) = (m w).after before

namespace Continues

theorem attempt {m m' : Run α} {f f' : Except Exit α → Run β} (hm : Continues α m m')
    (hf : ∀ x, Continues β (f x) (f' x)) :
    Continues β (Run.attempt m f) (Run.attempt m' f') := by
  intro before w
  rcases hm before w with hcut | hsame
  · exact Or.inl (attempt_exhausted hcut f)
  · cases hr : m w with
    | done a w₁ =>
      rw [hr] at hsame
      rw [attempt_done hr, attempt_done hsame]
      exact hf (.ok a) before w₁
    | exit e w₁ =>
      rw [hr] at hsame
      rw [attempt_exit hr, attempt_exit hsame]
      exact hf (.error e) before w₁
    | exhausted => exact Or.inl (attempt_exhausted hr f)

theorem exit (e : Exit) : Continues α (Run.exit e) (Run.exit e) :=
  fun _ _ => Or.inr rfl

theorem bind {m m' : Run α} {f f' : α → Run β} (hm : Continues α m m')
    (hf : ∀ a, Continues β (f a) (f' a)) : Continues β (m >>= f) (m' >>= f') := by
  rw [bind_eq_attempt, bind_eq_attempt]
  refine hm.attempt fun x => ?_
  cases x with
  | ok a => exact hf a
  | error e => exact exit e

theorem heedAbort : Continues Unit Run.heedAbort Run.heedAbort := by
  intro before w
  right
  by_cases habort : w.aborted = true
  · rw [heedAbort_stop habort]
    exact heedAbort_stop habort
  · have hgo : w.aborted = false := by simpa using habort
    rw [heedAbort_go hgo]
    exact heedAbort_go hgo

theorem look {γ : Type} (view : World → γ) (hview : World.Visible view) {k k' : γ → Run α}
    (hk : ∀ b, Continues α (k b) (k' b)) :
    Continues α (fun w => k (view w) w) fun w => k' (view w) w := by
  intro before w
  -- No view of a state that a program has shows the lines.
  have hsame : view (w.after before) = view w := hview w w.limit (before ++ w.lines)
  simp only [hsame]
  exact hk (view w) before w

theorem write (line : String) :
    Continues Unit (Run.modify fun w => { w with lines := w.lines.push line })
      (Run.modify fun w => { w with lines := w.lines.push line }) := by
  intro before w
  right
  simp [Run.modify, World.after, Outcome.after]

theorem parse (atoms : List Atom) : Continues _ (Engine.parse atoms) (Engine.parse atoms) := by
  intro before w
  right
  have hread : parseExpr (w.after before).parseContext ⟨atoms, (w.after before).procedures⟩
      = parseExpr w.parseContext ⟨atoms, w.procedures⟩ := rfl
  unfold Engine.parse
  rw [hread]
  cases parseExpr w.parseContext ⟨atoms, w.procedures⟩ with
  | ok e s => rfl
  | fail f s => rfl

theorem counted (i : Nat) {m m' : Run Unit} (hm : Continues Unit m m') :
    Continues Unit (Act.counted i m) (Act.counted i m') := by
  intro before w
  rw [Act.counted_apply, Act.counted_apply]
  rcases hm before (Act.withRepcount i w) with hcut | hsame
  · left
    rw [hcut]
    rfl
  · right
    change Act.restore w.repcount (m' ((Act.withRepcount i w).after before)) = _
    rw [hsame]
    cases m (Act.withRepcount i w) with
    | done a w₁ => rfl
    | exit e w₁ => rfl
    | exhausted => rfl

theorem enter (name : String) : Continues Unit (enter name) (enter name) := by
  intro before w
  right
  by_cases habort : w.aborted = true
  · rw [enter_aborted habort]
    exact enter_aborted habort
  · have hgo : w.aborted = false := by simpa using habort
    rcases Nat.lt_or_ge w.calls.size w.limit with hdepth | hdeep
    · rw [enter_done hgo hdepth]
      exact enter_done (w := w.after before) hgo hdepth
    · rw [enter_tooDeep hgo hdeep]
      exact enter_tooDeep (w := w.after before) hgo hdeep

theorem leaving {m m' : Run α} (hm : Continues α m m') :
    Continues α (leaving m) (leaving m') := by
  intro before w
  rw [leaving_apply, leaving_apply]
  rcases hm before w with hcut | hsame
  · left
    rw [hcut]
    rfl
  · right
    rw [hsame]
    cases m w with
    | done a w₁ => rfl
    | exhausted => rfl
    | exit e w₁ => cases e <;> rfl

theorem framed {m m' : Run Unit} (hm : Continues Unit m m') :
    Continues _ (framed m) (framed m') := by
  intro before w
  rw [framed_apply, framed_apply]
  rcases hm before { w with frames := w.frames.push } with hcut | hsame
  · left
    rw [hcut]
    rfl
  · right
    change (m' (World.after before { w with frames := w.frames.push })).closeFrame = _
    rw [hsame]
    cases m { w with frames := w.frames.push } with
    | done a w₁ => rfl
    | exhausted => rfl
    | exit e w₁ => cases e <;> rfl

theorem congruence : Congruence Continues where
  done _ _ _ := Or.inr rfl
  bind := Continues.bind
  exit _ _ _ := Or.inr rfl
  attempt := Continues.attempt
  exhausted _ _ _ := Or.inl rfl
  heedAbort := Continues.heedAbort
  look view hview _ _ hk := Continues.look view hview hk
  onTurtle _ _ _ := Or.inr rfl
  assign _ _ _ _ := Or.inr rfl
  bindLocal _ _ _ _ := Or.inr rfl
  declareLocal _ _ _ := Or.inr rfl
  setTest _ _ _ := Or.inr rfl
  write := Continues.write
  setAborted _ _ _ := Or.inr rfl
  parse := Continues.parse
  counted i _ _ hm := hm.counted i
  called name _ _ hm := (Continues.enter name).bind fun _ => hm.leaving
  framed hm := hm.framed

end Continues

end Run

/-- A job that is not cut off does not depend on what was written before. -/
theorem interpret_after {fuel : Nat} {job : Job} {w : World}
    (h : interpret fuel job w ≠ .exhausted) (before : Array String) :
    interpret fuel job (w.after before) = (interpret fuel job w).after before :=
  (Run.Continues.congruence.interpret fuel fuel (Nat.le_refl fuel) job before w).resolve_left h

end TurtleLogo
