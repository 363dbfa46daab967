import TurtleLogo.Proofs.Run.Fuel

set_option autoImplicit false

/-! # How a piece of program ends

`Finishes` says how a job ends on enough fuel. What primitives are made of is no job, and
`Concludes` says the same of it. For what does not end differently on more fuel (`Steady`), a
sequence concludes as its parts do (`concludes_bind_of_done`, `concludes_bind_of_exit`). -/

namespace TurtleLogo

variable {α β : Type} {m : Engine → Run α} {f : Engine → α → Run β}
variable {w w₁ : World} {o o' : Outcome α}

/-- On enough fuel a piece of program ends with this outcome. -/
def Concludes (m : Engine → Run α) (w : World) (o : Outcome α) : Prop :=
  o ≠ .exhausted ∧ ∃ fuel, m (engineOn fuel) w = o

/-- More fuel does not change how a piece of program ends. -/
def Steady (m : Engine → Run α) : Prop :=
  ∀ fuel fuel' : Nat, fuel ≤ fuel' → Run.Below α (m (engineOn fuel)) (m (engineOn fuel'))

namespace Concludes

theorem of_eventually (hne : o ≠ .exhausted)
    (h : Outcome.Eventually (fun fuel => m (engineOn fuel) w) o) : Concludes m w o := by
  obtain ⟨fuel, hfuel⟩ := h
  exact ⟨hne, fuel, hfuel fuel (Nat.le_refl fuel)⟩

theorem eventually (hm : Steady m) (h : Concludes m w o) :
    Outcome.Eventually (fun fuel => m (engineOn fuel) w) o := by
  obtain ⟨hne, fuel, rfl⟩ := h
  refine ⟨fuel, fun fuel' hle => ?_⟩
  rcases hm _ _ hle w with hcut | hsame
  · exact absurd hcut hne
  · exact hsame.symm

theorem unique (hm : Steady m) (h : Concludes m w o) (h' : Concludes m w o') : o = o' :=
  (h.eventually hm).unique (h'.eventually hm)

end Concludes

/-! ## What is steady -/

theorem Steady.const (r : Run α) : Steady fun _ => r :=
  fun _ _ _ => Run.Below.refl r

theorem Steady.bind (hm : Steady m) (hf : ∀ a, Steady fun eng => f eng a) :
    Steady fun eng => m eng >>= f eng :=
  fun _ _ hle => (hm _ _ hle).bind fun a => hf a _ _ hle

theorem Steady.run (job : Job) : Steady fun eng => eng.run job :=
  fun _ _ hle => Run.Below.congruence.interpret _ _ hle job

theorem Steady.condition (e : Expr) (me : String) : Steady fun eng => eng.condition e me :=
  fun _ _ hle => Run.Below.congruence.condition (Run.Below.congruence.engines hle) e me

/-- What the walk through programs goes through is steady. -/
theorem Steady.of_compatible
    (h : ∀ {R : (α : Type) → (Bool → Run α) → Prop} {eng : Bool → Engine},
      Run.Compatible false (fun _ => True) R → Run.CutsOff false R →
      Run.Engines false (fun _ => True) R eng → R α fun i => m (eng i)) : Steady m :=
  fun _ _ hle => h Run.Below.congruence.compatible Run.Below.congruence.cutsOff
    ((Run.Below.congruence.engines hle).engines Run.Below.congruence)

/-! ## Sequences -/

theorem concludes_pure_iff {a : α} : Concludes (fun _ => pure a) w o ↔ o = .done a w := by
  constructor
  · rintro ⟨-, -, rfl⟩
    rfl
  · rintro rfl
    exact ⟨by simp, 0, rfl⟩

/-- A sequence that ends has gone on where its first part is done, or ended where that exits. -/
theorem Concludes.bind_cases {o : Outcome β} (h : Concludes (fun eng => m eng >>= f eng) w o) :
    (∃ a w₁, Concludes m w (.done a w₁) ∧ Concludes (fun eng => f eng a) w₁ o) ∨
    (∃ e w₁, Concludes m w (.exit e w₁) ∧ o = .exit e w₁) := by
  obtain ⟨hne, fuel, hwhole⟩ := h
  replace hwhole : (m (engineOn fuel) >>= f (engineOn fuel)) w = o := hwhole
  cases hfirst : m (engineOn fuel) w with
  | done a w₁ =>
    rw [Run.bind_done hfirst] at hwhole
    exact .inl ⟨a, w₁, ⟨by simp, fuel, hfirst⟩, hne, fuel, hwhole⟩
  | exit e w₁ =>
    rw [Run.bind_exit hfirst] at hwhole
    exact .inr ⟨e, w₁, ⟨by simp, fuel, hfirst⟩, hwhole.symm⟩
  | exhausted =>
    rw [Run.bind_exhausted hfirst] at hwhole
    exact absurd hwhole.symm hne

theorem concludes_bind_of_exit {e : Exit} {o : Outcome β} (hm : Steady m)
    (h : Concludes m w (.exit e w₁)) :
    Concludes (fun eng => m eng >>= f eng) w o ↔ o = .exit e w₁ := by
  constructor
  · intro hwhole
    rcases hwhole.bind_cases with ⟨a, w₂, hfirst, -⟩ | ⟨e', w₂, hfirst, rfl⟩
    · cases h.unique hm hfirst
    · obtain ⟨rfl, rfl⟩ := Outcome.exit.inj (h.unique hm hfirst)
      rfl
  · rintro rfl
    exact .of_eventually (by simp) (h.eventually hm).bind_exit

/-- A sequence concludes as what follows its first part does, once that is done. -/
theorem concludes_bind_of_done {a : α} {o : Outcome β} (hm : Steady m)
    (hf : Steady fun eng => f eng a) (h : Concludes m w (.done a w₁)) :
    Concludes (fun eng => m eng >>= f eng) w o ↔ Concludes (fun eng => f eng a) w₁ o := by
  constructor
  · intro hwhole
    rcases hwhole.bind_cases with ⟨b, w₂, hfirst, hrest⟩ | ⟨e, w₂, hfirst, -⟩
    · obtain ⟨rfl, rfl⟩ := Outcome.done.inj (h.unique hm hfirst)
      exact hrest
    · cases h.unique hm hfirst
  · exact fun hrest =>
      .of_eventually hrest.1 ((h.eventually hm).bind_done (hrest.eventually hf))

/-! ## Jobs -/

/-- A job finishes as the step that does it concludes. -/
theorem finishes_iff_step {job : Job} {o : Outcome (Option Atom)} :
    Finishes job w o ↔ Concludes (fun eng => step eng job) w o := by
  constructor
  · rintro ⟨hne, fuel, rfl⟩
    cases fuel with
    | zero => exact absurd rfl hne
    | succ fuel => exact ⟨hne, fuel, (interpret_succ fuel job w).symm⟩
  · rintro ⟨hne, fuel, rfl⟩
    exact ⟨hne, fuel + 1, interpret_succ fuel job w⟩

/-- A procedure can be entered. -/
def World.Enterable (w : World) : Prop :=
  w.aborted = false ∧ w.calls.size < w.limit

/-- The state in which a procedure runs that has been entered. -/
def World.entered (w : World) (p : Procedure) : World :=
  { w with calls := w.calls.push p.name }

/-- A call that can be entered finishes as the procedure does inside. -/
theorem finishes_call_iff {p : Procedure} {inputs : List Expr} {o : Outcome (Option Atom)}
    (h : w.Enterable) :
    Finishes (.force (.call p inputs)) w o ↔
      ∃ o₁, Finishes (.invoke p inputs) (w.entered p) o₁ ∧ o = o₁.closeCall := by
  have hcall : ∀ fuel, step (engineOn fuel) (.force (.call p inputs)) w
      = (interpret fuel (.invoke p inputs) (w.entered p)).closeCall :=
    fun _ => Run.bind_done (enter_done h.1 h.2) _
  rw [finishes_iff_step]
  constructor
  · rintro ⟨hne, fuel, hwhole⟩
    replace hwhole := (hcall fuel).symm.trans hwhole
    refine ⟨_, ⟨?_, fuel, rfl⟩, hwhole.symm⟩
    intro hcut
    rw [hcut] at hwhole
    exact hne hwhole.symm
  · rintro ⟨o₁, ⟨hne, fuel, rfl⟩, rfl⟩
    exact ⟨Outcome.closeCall_ne_exhausted hne, fuel, hcall fuel⟩

/-- A call that cannot be entered finishes in one way, whatever its inputs. -/
theorem finishes_call_of_not_enterable {p : Procedure} (h : ¬ w.Enterable) :
    ∃ e, ∀ inputs o, Finishes (.force (.call p inputs)) w o ↔ o = .exit e w := by
  obtain ⟨e, henter⟩ : ∃ e, enter p.name w = .exit e w := by
    cases habort : w.aborted with
    | true => exact ⟨_, enter_aborted habort⟩
    | false => exact ⟨_, enter_tooDeep habort (Nat.not_lt.mp fun hroom => h ⟨habort, hroom⟩)⟩
  refine ⟨e, fun inputs o => ?_⟩
  have hcall : ∀ fuel, step (engineOn fuel) (.force (.call p inputs)) w = .exit e w :=
    fun _ => Run.bind_exit henter _
  rw [finishes_iff_step]
  constructor
  · rintro ⟨-, fuel, hwhole⟩
    exact hwhole.symm.trans (hcall fuel)
  · rintro rfl
    exact ⟨by simp, 0, hcall 0⟩

end TurtleLogo
