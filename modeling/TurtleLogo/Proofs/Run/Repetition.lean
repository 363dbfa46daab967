import TurtleLogo.Proofs.Run.Loop

set_option autoImplicit false

/-! # Repetitions

`REPEAT` and `FOREVER` number their rounds in a counter that any program they run can see, and that
any other repetition in it uses as well. -/

namespace TurtleLogo

variable {more : Nat → Bool} {code : List Atom} {k : Nat} {w w' : World}

/-! ## Rounds -/

/-- The rounds of a repetition, which are counted from one; `more` says how far they go. -/
def repetition (more : Nat → Bool) (code : List Atom) : LoopPlan where
  goes k := more (k + 1)
  prepare k := Act.withRepcount (k + 1)
  body := code
  heedsLast := false

theorem repeatFrom_eq (eng : Engine) (rounds : Nat) :
    Act.repeatFrom (eng.perform code) more rounds (k + 1)
      = (repetition more code).runFrom eng rounds k := by
  induction rounds generalizing k with
  | zero => rfl
  | succ rounds ih =>
    funext w
    rw [Act.repeatFrom_succ, ih]
    cases hmore : more (k + 1) with
    | false =>
      have hover : (repetition more code).goes k = false := hmore
      exact (LoopPlan.runFrom_over hover nofun).symm
    | true =>
      have hgoes : (repetition more code).goes k = true := hmore
      cases habort : w.aborted with
      | true => exact (LoopPlan.runFrom_aborted habort (.inr hgoes)).symm
      | false => exact (LoopPlan.runFrom_goes hgoes habort).symm

/-- After a round the counter is still at its number: what the round has run puts it back. -/
theorem repcount_of_rounds (h : (repetition more code).Rounds (k + 1) w w') :
    w'.repcount = k + 1 := by
  cases h with
  | next before round =>
    -- Whatever the round has called or repeated is balanced, and it began with this counter.
    exact round.balanced.repcount

theorem more_of_rounds (h : (repetition more code).Rounds k w w') {i : Nat} (hpos : 1 ≤ i)
    (hle : i ≤ k) : more i = true := by
  obtain ⟨i, rfl⟩ : ∃ j, i = j + 1 := ⟨i - 1, by omega⟩
  obtain ⟨w₂, w₃, -, hround⟩ := h.exists_round (Nat.lt_of_succ_le hle)
  exact hround.goes

/-! ## The primitives -/

/-- The loops with a counter: which round is the last, and what is run in each. -/
inductive Repeats : (Engine → Run (Option Atom)) → (Nat → Bool) → List Atom → Prop
  | times (me : String) {a : Atom} {count : Float} (h : a.number? = some count) (code : List Atom)
      (rest : List Atom) :
    Repeats (fun eng => Act.repeatTimes eng me (a :: .list code :: rest))
      (fun i => Float.ofNat i ≤ count) code
  | forever (me : String) (code rest : List Atom) :
    Repeats (fun eng => Act.forever eng me (.list code :: rest)) (fun _ => true) code

/-- The outcome of a repetition, given how its rounds end; `n` is the counter before it. -/
def repeated (n : Nat) : Outcome Unit → Outcome (Option Atom)
  | .done () w => .done none (Act.withRepcount n w)
  | .exit e w => .exit e (Act.withRepcount n w)
  | .exhausted => .exhausted

theorem keeping_apply (m : Run Unit) (w : World) :
    (do Act.keepingRepcount m; pure none : Run (Option Atom)) w = repeated w.repcount (m w) := by
  rw [Run.bind_apply, Act.keepingRepcount_apply]
  cases m w with
  | done a w' => rfl
  | exit e w' => rfl
  | exhausted => rfl

theorem Repeats.apply {loop : Engine → Run (Option Atom)} (h : Repeats loop more code)
    (eng : Engine) (w : World) :
    loop eng w = repeated w.repcount ((repetition more code).run eng w) := by
  rw [LoopPlan.run, ← repeatFrom_eq, ← keeping_apply]
  cases h with
  | @times me a count hcount code rest =>
    have hnumber : Input.numberAt me (a :: .list code :: rest) 0 w = .done count w :=
      (Run.bind_done rfl _).trans (Run.require_eq_done.mpr ⟨hcount, rfl⟩)
    exact Run.bind_done hnumber _
  | forever me code rest => rfl

theorem repeated_ne_exhausted_iff {n : Nat} {o : Outcome Unit} :
    repeated n o ≠ .exhausted ↔ o ≠ .exhausted := by
  cases o with
  | done a w => simp [repeated]
  | exit e w => simp [repeated]
  | exhausted => simp [repeated]

variable {loop : Engine → Run (Option Atom)}

/-- A repetition ends as its rounds do. -/
theorem Repeats.concludes_iff (h : Repeats loop more code) {o : Outcome (Option Atom)} :
    Concludes loop w o ↔
      ∃ o₁, Concludes (repetition more code).run w o₁ ∧ o = repeated w.repcount o₁ := by
  constructor
  · rintro ⟨hne, fuel, rfl⟩
    rw [h.apply] at hne ⊢
    exact ⟨_, ⟨repeated_ne_exhausted_iff.mp hne, fuel, rfl⟩, rfl⟩
  · rintro ⟨o₁, ⟨hne, fuel, rfl⟩, rfl⟩
    exact ⟨repeated_ne_exhausted_iff.mpr hne, fuel, h.apply _ w⟩

theorem Repeats.ends_iff (h : Repeats loop more code) {o : Outcome (Option Atom)} :
    Concludes loop w o ↔
      ∃ k w₁ o₁, (repetition more code).Rounds k w w₁ ∧ (repetition more code).Ending k w₁ o₁ ∧
        o = repeated w.repcount o₁ := by
  rw [h.concludes_iff]
  simp only [LoopPlan.concludes_iff]
  constructor
  · rintro ⟨o₁, ⟨k, w₁, hrounds, hending⟩, rfl⟩
    exact ⟨k, w₁, o₁, hrounds, hending, rfl⟩
  · rintro ⟨k, w₁, o₁, hrounds, hending, rfl⟩
    exact ⟨o₁, ⟨k, w₁, hrounds, hending⟩, rfl⟩

theorem Repeats.endless_iff (h : Repeats loop more code) :
    (∀ o, ¬ Concludes loop w o) ↔
      (∀ k, ∃ w₁, (repetition more code).Rounds k w w₁) ∨
      ∃ k w₁, (repetition more code).Rounds k w w₁ ∧ (repetition more code).Hangs k w₁ := by
  rw [← LoopPlan.not_concludes_iff]
  simp only [h.concludes_iff]
  constructor
  · exact fun hnone o ho => hnone _ ⟨o, ho, rfl⟩
  · rintro hnone o ⟨o₁, ho₁, -⟩
    exact hnone o₁ ho₁

/-- A repetition that ends normally has had every round up to the first that `more` forbids. -/
theorem Repeats.done_iff (h : Repeats loop more code) {v : Option Atom} :
    Concludes loop w (.done v w') ↔ v = none ∧
      ∃ k w₁, (repetition more code).Rounds k w w₁ ∧ (∀ i, 1 ≤ i → i ≤ k → more i = true) ∧
        more (k + 1) = false ∧ w' = Act.withRepcount w.repcount w₁ := by
  rw [h.ends_iff]
  constructor
  · rintro ⟨k, w₁, o₁, hrounds, hending, heq⟩
    cases hending with
    | finished hover _ =>
      obtain ⟨rfl, rfl⟩ := Outcome.done.inj heq
      exact ⟨rfl, k, w₁, hrounds, fun i => more_of_rounds hrounds, hover, rfl⟩
    | aborted _ _ => cases heq
    | left _ _ _ => cases heq
  · rintro ⟨rfl, k, w₁, hrounds, -, hover, rfl⟩
    exact ⟨k, w₁, _, hrounds, .finished hover nofun, rfl⟩

theorem Repeats.keeps_repcount (h : Repeats loop more code) (fuel : Nat) :
    (loop (engineOn fuel) w).Ends fun w' => w'.repcount = w.repcount := by
  rw [h.apply]
  cases (repetition more code).run (engineOn fuel) w with
  | done a w' => rfl
  | exit e w' => rfl
  | exhausted => trivial

/-- `REPEAT` and `FOREVER` number their rounds from one, whatever happens in them: every round
begins in the state that the one before left, with the counter at its number, and this is all that
happens. The loop ends after the last round, when the host stops it, or when a round is left early
by a fault, `STOP` or `OUTPUT`; otherwise a round does not end, or there is always another. If it
ends normally, the rounds are those up to the last of a row that `more` allows. However it ends, the
counter is what it was before. -/
theorem repetition_numbers_rounds {loop : Engine → Run (Option Atom)}
    (h : Repeats loop more code) (w : World) :
    (∀ o, Concludes loop w o ↔
      ∃ k w₁ o₁, (repetition more code).Rounds k w w₁ ∧ (repetition more code).Ending k w₁ o₁ ∧
        o = repeated w.repcount o₁) ∧
    ((∀ o, ¬ Concludes loop w o) ↔
      (∀ k, ∃ w₁, (repetition more code).Rounds k w w₁) ∨
      ∃ k w₁, (repetition more code).Rounds k w w₁ ∧ (repetition more code).Hangs k w₁) ∧
    (∀ v w', Concludes loop w (.done v w') ↔ v = none ∧
      ∃ k w₁, (repetition more code).Rounds k w w₁ ∧ (∀ i, 1 ≤ i → i ≤ k → more i = true) ∧
        more (k + 1) = false ∧ w' = Act.withRepcount w.repcount w₁) ∧
    (∀ k w₁, (repetition more code).Rounds (k + 1) w w₁ → w₁.repcount = k + 1) ∧
    (∀ fuel, (loop (engineOn fuel) w).Ends fun w' => w'.repcount = w.repcount) :=
  ⟨fun _ => h.ends_iff, h.endless_iff, fun _ _ => h.done_iff, fun _ _ => repcount_of_rounds,
    h.keeps_repcount⟩

/-- A repetition of a repetition, within another. -/
theorem repetition_numbers_rounds_nested : ∃ w₁,
    (repetition (fun i => Float.ofNat i ≤ 2.0)
      [.word "repeat", .number 3.0, .list []]).Rounds 2
      { procedures := ⟨[("repeat", ⟨"REPEAT", .primitive .repeatTimes, .fixed 2⟩)]⟩, repcount := 7 }
      w₁ ∧
    w₁.repcount = 2 ∧
    Concludes (fun eng => Act.repeatTimes eng "REPEAT"
        [.number 2.0, .list [.word "repeat", .number 3.0, .list []]])
      { procedures := ⟨[("repeat", ⟨"REPEAT", .primitive .repeatTimes, .fixed 2⟩)]⟩, repcount := 7 }
      (.done none (Act.withRepcount 7 w₁)) := by
  obtain ⟨-, -, hdone, hcounter, -⟩ := repetition_numbers_rounds
    (.times "REPEAT" (a := .number 2.0) rfl [.word "repeat", .number 3.0, .list []] [])
    { procedures := ⟨[("repeat", ⟨"REPEAT", .primitive .repeatTimes, .fixed 2⟩)]⟩, repcount := 7 }
  obtain ⟨w', hends⟩ : ∃ w', Concludes (fun eng => Act.repeatTimes eng "REPEAT"
        [.number 2.0, .list [.word "repeat", .number 3.0, .list []]])
      { procedures := ⟨[("repeat", ⟨"REPEAT", .primitive .repeatTimes, .fixed 2⟩)]⟩, repcount := 7 }
      (.done none w') := by
    have heval : (match Act.repeatTimes (engineOn 8) "REPEAT"
          [.number 2.0, .list [.word "repeat", .number 3.0, .list []]]
          { procedures := ⟨[("repeat", ⟨"REPEAT", .primitive .repeatTimes, .fixed 2⟩)]⟩,
            repcount := 7 } with
        | .done none _ => true
        | _ => false) = true := by decide +kernel
    split at heval
    · next w' hrun => exact ⟨w', by simp, 8, hrun⟩
    · cases heval
  obtain ⟨-, k, w₁, hrounds, hmore, hover, rfl⟩ := (hdone none w').mp hends
  have hfirst : decide (Float.ofNat 1 ≤ 2.0) = true := by decide +kernel
  have hsecond : decide (Float.ofNat 2 ≤ 2.0) = true := by decide +kernel
  have hthird : decide (Float.ofNat 3 ≤ 2.0) = false := by decide +kernel
  obtain rfl : k = 2 := by
    match k with
    | 0 => exact absurd hover (by simp [hfirst])
    | 1 => exact absurd hover (by simp [hsecond])
    | 2 => rfl
    | k + 3 => exact absurd (hmore 3 (by omega) (by omega)) (by simp [hthird])
  exact ⟨w₁, hrounds, hcounter 1 w₁ hrounds, hends⟩

end TurtleLogo
