import TurtleLogo.Proofs.Run.Congruence

set_option autoImplicit false

/-! # Fuel

A run that ends on some fuel ends the same way on more (`interpret_mono`). So it makes sense to
say how a job finishes without naming an amount of fuel (`Finishes`), and there is at most one way
(`Finishes.unique`). -/

namespace TurtleLogo

namespace Run

/-- Wherever `m` is not cut off, `m'` does the same. -/
def Below (α : Type) (m m' : Run α) : Prop :=
  ∀ w, m w = .exhausted ∨ m w = m' w

theorem Below.refl {α : Type} (m : Run α) : Below α m m :=
  fun _ => Or.inr rfl

theorem Below.attempt {α β : Type} {m m' : Run α} {f f' : Except Exit α → Run β}
    (hm : Below α m m') (hf : ∀ x, Below β (f x) (f' x)) :
    Below β (Run.attempt m f) (Run.attempt m' f') := by
  intro w
  rcases hm w with hcut | hsame
  · exact Or.inl (attempt_exhausted hcut f)
  · unfold Run.attempt
    rw [← hsame]
    cases m w with
    | done a w₁ => exact hf (.ok a) w₁
    | exit e w₁ => exact hf (.error e) w₁
    | exhausted => exact Or.inl rfl

theorem Below.bind {α β : Type} {m m' : Run α} {f f' : α → Run β} (hm : Below α m m')
    (hf : ∀ a, Below β (f a) (f' a)) : Below β (m >>= f) (m' >>= f') := by
  rw [bind_eq_attempt, bind_eq_attempt]
  refine hm.attempt fun x => ?_
  cases x with
  | ok a => exact hf a
  | error e => exact Below.refl _

theorem Below.counted (i : Nat) {m m' : Run Unit} (hm : Below Unit m m') :
    Below Unit (Act.counted i m) (Act.counted i m') := by
  intro w
  rw [Act.counted_apply, Act.counted_apply]
  rcases hm (Act.withRepcount i w) with hcut | hsame
  · exact Or.inl (by rw [hcut]; rfl)
  · exact Or.inr (by rw [hsame])

theorem Below.leaving {m m' : Run (Option Atom)} (hm : Below _ m m') :
    Below _ (leaving m) (leaving m') := by
  intro w
  unfold TurtleLogo.leaving
  rcases hm w with hcut | hsame
  · exact Or.inl (by rw [hcut])
  · exact Or.inr (by rw [hsame])

theorem Below.framed {m m' : Run Unit} (hm : Below Unit m m') :
    Below _ (framed m) (framed m') := by
  intro w
  unfold TurtleLogo.framed
  rcases hm { w with frames := w.frames.push } with hcut | hsame
  · exact Or.inl (by rw [hcut])
  · exact Or.inr (by rw [hsame])

theorem Below.congruence : Congruence Below where
  done _ := Below.refl _
  bind := Below.bind
  exit _ := Below.refl _
  attempt := Below.attempt
  exhausted _ _ := Or.inl rfl
  heedAbort := Below.refl _
  look _ _ _ _ hk w := hk _ w
  onTurtle _ := Below.refl _
  assign _ _ := Below.refl _
  bindLocal _ _ := Below.refl _
  declareLocal _ := Below.refl _
  setTest _ := Below.refl _
  write _ := Below.refl _
  setAborted _ := Below.refl _
  parse _ := Below.refl _
  counted i _ _ hm := hm.counted i
  called _ _ _ hm := (Below.refl _).bind fun _ => hm.leaving
  framed hm := hm.framed

end Run

/-- More fuel does not change how a run ends. -/
theorem interpret_mono {fuel fuel' : Nat} (hle : fuel ≤ fuel') {job : Job} {w : World}
    (h : interpret fuel job w ≠ .exhausted) : interpret fuel' job w = interpret fuel job w := by
  rcases Run.Below.congruence.interpret fuel fuel' hle job w with hcut | hsame
  · exact absurd hcut h
  · exact hsame.symm

/-! ## Enough fuel -/

/-- From some amount of fuel on, runs with the outcomes `m` end with `o`. -/
def Outcome.Eventually {α : Type} (m : Nat → Outcome α) (o : Outcome α) : Prop :=
  ∃ fuel, ∀ fuel' ≥ fuel, m fuel' = o

namespace Outcome.Eventually

variable {α β : Type} {w w₁ : World} {o o' : Outcome α}

theorem const (o : Outcome α) : Eventually (fun _ => o) o :=
  ⟨0, fun _ _ => rfl⟩

theorem map {m : Nat → Outcome α} (h : Eventually m o) (g : Outcome α → Outcome β) :
    Eventually (fun n => g (m n)) (g o) := by
  obtain ⟨fuel, hfuel⟩ := h
  exact ⟨fuel, fun fuel' hle => congrArg g (hfuel fuel' hle)⟩

theorem unique {m : Nat → Outcome α} (h : Eventually m o) (h' : Eventually m o') : o = o' := by
  obtain ⟨fuel, hfuel⟩ := h
  obtain ⟨fuel', hfuel'⟩ := h'
  rw [← hfuel (max fuel fuel') (Nat.le_max_left _ _),
    hfuel' (max fuel fuel') (Nat.le_max_right _ _)]

/-- Where the amounts of fuel begin does not matter. -/
theorem of_succ {m : Nat → Outcome α} (h : Eventually (fun n => m (n + 1)) o) : Eventually m o := by
  obtain ⟨fuel, hfuel⟩ := h
  refine ⟨fuel + 1, fun fuel' hle => ?_⟩
  obtain ⟨n, rfl⟩ : ∃ n, fuel' = n + 1 := ⟨fuel' - 1, by omega⟩
  exact hfuel n (by omega)

/-- What goes on as `n` does once `m` has come to its outcome. -/
theorem of_eq {m : Nat → Outcome α} {l n : Nat → Outcome β} {o' : Outcome β} (hm : Eventually m o)
    (hn : Eventually n o') (h : ∀ fuel, m fuel = o → l fuel = n fuel) : Eventually l o' := by
  obtain ⟨fuel, hfuel⟩ := hm
  obtain ⟨fuel₁, hfuel₁⟩ := hn
  refine ⟨max fuel fuel₁, fun fuel' hle => ?_⟩
  obtain ⟨hle₀, hle₁⟩ := Nat.max_le.mp hle
  exact (h fuel' (hfuel fuel' hle₀)).trans (hfuel₁ fuel' hle₁)

theorem bind_exit {m : Nat → Run α} {f : Nat → α → Run β} {e : Exit}
    (hm : Eventually (fun n => m n w) (.exit e w₁)) :
    Eventually (fun n => (m n >>= f n) w) (.exit e w₁) := by
  obtain ⟨fuel, hfuel⟩ := hm
  exact ⟨fuel, fun fuel' hle => Run.bind_exit (hfuel fuel' hle) _⟩

theorem bind_done {m : Nat → Run α} {f : Nat → α → Run β} {a : α} {o : Outcome β}
    (hm : Eventually (fun n => m n w) (.done a w₁)) (hf : Eventually (fun n => f n a w₁) o) :
    Eventually (fun n => (m n >>= f n) w) o :=
  hm.of_eq hf fun _ hr => Run.bind_done hr _

theorem attempt_exit {m : Nat → Run α} {f : Nat → Except Exit α → Run β} {e : Exit} {o : Outcome β}
    (hm : Eventually (fun n => m n w) (.exit e w₁))
    (hf : Eventually (fun n => f n (.error e) w₁) o) :
    Eventually (fun n => Run.attempt (m n) (f n) w) o :=
  hm.of_eq hf fun _ hr => Run.attempt_exit hr _

theorem attempt_done {m : Nat → Run α} {f : Nat → Except Exit α → Run β} {a : α} {o : Outcome β}
    (hm : Eventually (fun n => m n w) (.done a w₁)) (hf : Eventually (fun n => f n (.ok a) w₁) o) :
    Eventually (fun n => Run.attempt (m n) (f n) w) o :=
  hm.of_eq hf fun _ hr => Run.attempt_done hr _

end Outcome.Eventually

/-- On enough fuel the job ends with this outcome. -/
def Finishes (job : Job) (w : World) (o : Outcome (Option Atom)) : Prop :=
  o ≠ .exhausted ∧ ∃ fuel, interpret fuel job w = o

namespace Finishes

variable {job : Job} {w : World} {o o' : Outcome (Option Atom)}

/-- A job that finishes does so on every larger amount of fuel. -/
theorem eventually (h : Finishes job w o) :
    Outcome.Eventually (fun fuel => interpret fuel job w) o := by
  obtain ⟨hne, fuel, rfl⟩ := h
  exact ⟨fuel, fun fuel' hle => interpret_mono hle hne⟩

/-- A job finishes in one way at most. -/
theorem unique (h : Finishes job w o) (h' : Finishes job w o') : o = o' :=
  h.eventually.unique h'.eventually

end Finishes

end TurtleLogo
