import TurtleLogo.Proofs.Run.Balance
import TurtleLogo.Proofs.Run.Conclude

set_option autoImplicit false

/-! # Loops with numbered rounds

`REPEAT`, `FOREVER` and the loops that count know the number of each round, and what they do about a
round depends on this number alone: whether there is one, and what is set before its instructions
are run. `LoopPlan` has this, `LoopPlan.Rounds` is the chain of states that the rounds lead through,
and `LoopPlan.concludes_iff` says that such a loop ends in no other way than by this chain. Where it
does not end, a round does not end or there is no last round (`LoopPlan.not_concludes_iff`). -/

namespace TurtleLogo

/-- A loop whose rounds are numbered from zero. -/
structure LoopPlan where
  /-- Whether there is a round with this number, once those before are over. -/
  goes : Nat → Bool
  /-- What is set before a round, in the state that the round before left. -/
  prepare : Nat → World → World
  /-- The instructions of a round. -/
  body : List Atom
  /-- Whether the host can stop the loop when there is no round to come. -/
  heedsLast : Bool

namespace LoopPlan

variable {plan : LoopPlan} {k j : Nat} {w w₁ w₂ : World} {o : Outcome Unit}

/-- Runs the round with number `k` and those after it. -/
def runFrom (plan : LoopPlan) (eng : Engine) : Nat → Nat → Run Unit
  | 0, _ => fun _ => .exhausted
  | rounds + 1, k => fun w =>
    if w.aborted && (plan.heedsLast || plan.goes k) then .exit (.fault { cause := .aborted }) w
    else if plan.goes k then
      (eng.perform plan.body >>= fun _ => plan.runFrom eng rounds (k + 1)) (plan.prepare k w)
    else .done () w

/-- Runs the loop. -/
def run (plan : LoopPlan) (eng : Engine) : Run Unit :=
  plan.runFrom eng eng.rounds 0

/-- The round with number `k` has begun in the state `w` and run to its end. -/
structure Round (plan : LoopPlan) (k : Nat) (w w' : World) : Prop where
  goes : plan.goes k = true
  live : w.aborted = false
  finishes : ∃ v, Finishes (.execute plan.body false) (plan.prepare k w) (.done v w')

/-- The first `k` rounds lead from one state to another, each beginning where the one before
ended. -/
inductive Rounds (plan : LoopPlan) : Nat → World → World → Prop
  | start (w : World) : Rounds plan 0 w w
  | next {k : Nat} {w w₁ w₂ : World} (before : Rounds plan k w w₁) (round : plan.Round k w₁ w₂) :
    Rounds plan (k + 1) w w₂

/-- How the loop ends in a state in which `k` rounds are over: there is no other, the host stops it,
or the next round is left early. -/
inductive Ending (plan : LoopPlan) (k : Nat) (w : World) : Outcome Unit → Prop
  | finished (hover : plan.goes k = false) (hlive : plan.heedsLast = true → w.aborted = false) :
    Ending plan k w (.done () w)
  | aborted (haborted : w.aborted = true) (hheeds : plan.heedsLast = true ∨ plan.goes k = true) :
    Ending plan k w (.exit (.fault { cause := .aborted }) w)
  | left {e : Exit} {w' : World} (hgoes : plan.goes k = true) (hlive : w.aborted = false)
    (hleft : Finishes (.execute plan.body false) (plan.prepare k w) (.exit e w')) :
    Ending plan k w (.exit e w')

/-! ## Instructions of a round -/

theorem perform_done {eng : Engine} {code : List Atom} {v : Option Atom}
    (h : eng.run (.execute code false) w = .done v w₁) : eng.perform code w = .done () w₁ :=
  Run.bind_done h _

theorem perform_exit {eng : Engine} {code : List Atom} {e : Exit}
    (h : eng.run (.execute code false) w = .exit e w₁) : eng.perform code w = .exit e w₁ :=
  Run.bind_exit h _

theorem perform_exhausted {eng : Engine} {code : List Atom}
    (h : eng.run (.execute code false) w = .exhausted) : eng.perform code w = .exhausted :=
  Run.bind_exhausted h _

/-! ## One round -/

theorem runFrom_over {eng : Engine} {rounds : Nat} (hover : plan.goes k = false)
    (hlive : plan.heedsLast = true → w.aborted = false) :
    plan.runFrom eng (rounds + 1) k w = .done () w := by
  have hheeded : (w.aborted && (plan.heedsLast || plan.goes k)) = false := by
    rw [hover, Bool.or_false]
    cases hheeds : plan.heedsLast with
    | true => rw [hlive hheeds, Bool.false_and]
    | false => rw [Bool.and_false]
  have hover' : ¬ plan.goes k = true := by simp [hover]
  simp only [runFrom, hheeded, Bool.false_eq_true, if_false, if_neg hover']

theorem runFrom_aborted {eng : Engine} {rounds : Nat} (haborted : w.aborted = true)
    (hheeds : plan.heedsLast = true ∨ plan.goes k = true) :
    plan.runFrom eng (rounds + 1) k w = .exit (.fault { cause := .aborted }) w := by
  simp only [runFrom, haborted, Bool.true_and, Bool.or_eq_true, if_pos hheeds]

theorem runFrom_goes {eng : Engine} {rounds : Nat} (hgoes : plan.goes k = true)
    (hlive : w.aborted = false) :
    plan.runFrom eng (rounds + 1) k w
      = (eng.perform plan.body >>= fun _ => plan.runFrom eng rounds (k + 1))
          (plan.prepare k w) := by
  simp only [runFrom, hlive, Bool.false_and, Bool.false_eq_true, if_false, if_pos hgoes]

/-! ## What a loop that ends has done -/

/-- A loop that ends goes on from where its first rounds lead. -/
theorem exists_ending {fuel rounds : Nat} (hrounds : plan.Rounds k w w₁)
    (hrun : plan.runFrom (engineOn fuel) rounds k w₁ = o) (hne : o ≠ .exhausted) :
    ∃ k w₁, plan.Rounds k w w₁ ∧ plan.Ending k w₁ o := by
  -- The fuel stays the same from round to round; only the bound on the rounds shrinks.
  induction rounds generalizing k w₁ with
  | zero => exact absurd hrun.symm hne
  | succ rounds ih =>
    by_cases hgoes : plan.goes k = true
    · cases habort : w₁.aborted with
      | true =>
        rw [runFrom_aborted habort (.inr hgoes)] at hrun
        exact ⟨k, w₁, hrounds, hrun ▸ .aborted habort (.inr hgoes)⟩
      | false =>
        rw [runFrom_goes hgoes habort] at hrun
        cases hbody : (engineOn fuel).run (.execute plan.body false) (plan.prepare k w₁) with
        | done v w₂ =>
          rw [Run.bind_done (perform_done hbody)] at hrun
          exact ih (hrounds.next ⟨hgoes, habort, v, by simp, fuel, hbody⟩) hrun
        | exit e w₂ =>
          rw [Run.bind_exit (perform_exit hbody)] at hrun
          exact ⟨k, w₁, hrounds, hrun ▸ .left hgoes habort ⟨by simp, fuel, hbody⟩⟩
        | exhausted =>
          rw [Run.bind_exhausted (perform_exhausted hbody)] at hrun
          exact absurd hrun.symm hne
    · rw [Bool.not_eq_true] at hgoes
      by_cases hstops : plan.heedsLast = true ∧ w₁.aborted = true
      · rw [runFrom_aborted hstops.2 (.inl hstops.1)] at hrun
        exact ⟨k, w₁, hrounds, hrun ▸ .aborted hstops.2 (.inl hstops.1)⟩
      · have hlive : plan.heedsLast = true → w₁.aborted = false := by simpa using hstops
        rw [runFrom_over hgoes hlive] at hrun
        exact ⟨k, w₁, hrounds, hrun ▸ .finished hgoes hlive⟩

/-! ## What a loop does on enough fuel -/

/-- Beginning with round `k`, and with enough fuel for as many rounds as needed, the loop ends with
this outcome. -/
def Leads (plan : LoopPlan) (k : Nat) (w : World) (o : Outcome Unit) : Prop :=
  ∃ n, ∀ fuel ≥ n, ∀ rounds ≥ n, plan.runFrom (engineOn fuel) rounds k w = o

/-- To know it of a positive number of rounds is enough. -/
theorem Leads.of_succ (h : ∃ n, ∀ fuel ≥ n, ∀ rounds ≥ n,
    plan.runFrom (engineOn fuel) (rounds + 1) k w = o) : plan.Leads k w o := by
  obtain ⟨n, hn⟩ := h
  refine ⟨n + 1, fun fuel hfuel rounds hrounds => ?_⟩
  obtain ⟨rounds, rfl⟩ : ∃ r, rounds = r + 1 := ⟨rounds - 1, by omega⟩
  exact hn fuel (by omega) rounds (by omega)

theorem Ending.leads (h : plan.Ending k w o) : plan.Leads k w o := by
  cases h with
  | finished hover hlive => exact .of_succ ⟨0, fun _ _ _ _ => runFrom_over hover hlive⟩
  | aborted haborted hheeds => exact .of_succ ⟨0, fun _ _ _ _ => runFrom_aborted haborted hheeds⟩
  | left hgoes hlive hleft =>
    obtain ⟨n, hn⟩ := hleft.eventually
    refine .of_succ ⟨n, fun fuel hfuel rounds _ => ?_⟩
    rw [runFrom_goes hgoes hlive]
    exact Run.bind_exit (perform_exit (hn fuel hfuel)) _

/-- A round that ends leads to the next. -/
theorem Round.leads (h : plan.Round k w w₁) (hnext : plan.Leads (k + 1) w₁ o) :
    plan.Leads k w o := by
  obtain ⟨v, hbody⟩ := h.finishes
  obtain ⟨n, hn⟩ := hbody.eventually
  obtain ⟨n', hn'⟩ := hnext
  refine .of_succ ⟨max n n', fun fuel hfuel rounds hrounds => ?_⟩
  rw [runFrom_goes h.goes h.live, Run.bind_done (perform_done (hn fuel (by omega)))]
  exact hn' fuel (by omega) rounds (by omega)

theorem Rounds.leads (h : plan.Rounds k w w₁) (hnext : plan.Leads k w₁ o) : plan.Leads 0 w o := by
  -- The last round comes first, since it is the one from which the end is known to be reached.
  induction h with
  | start w => exact hnext
  | next before round ih => exact ih (round.leads hnext)

/-- A loop ends as its rounds do: after as many of them as there are, when the host stops it, or
when a round is left early. -/
theorem concludes_iff :
    Concludes plan.run w o ↔ ∃ k w₁, plan.Rounds k w w₁ ∧ plan.Ending k w₁ o := by
  constructor
  · rintro ⟨hne, fuel, hrun⟩
    exact exists_ending (.start w) hrun hne
  · rintro ⟨k, w₁, hrounds, hending⟩
    obtain ⟨n, hn⟩ := hrounds.leads hending.leads
    refine ⟨?_, n, hn n (Nat.le_refl n) n (Nat.le_refl n)⟩
    cases hending with
    | finished hover hlive => simp
    | aborted haborted hheeds => simp
    | left hgoes hlive hleft => simp

/-! ## Loops that do not end -/

theorem Round.unique (h : plan.Round k w w₁) (h' : plan.Round k w w₂) : w₁ = w₂ := by
  obtain ⟨v, hv⟩ := h.finishes
  obtain ⟨v', hv'⟩ := h'.finishes
  exact (Outcome.done.inj (hv.unique hv')).2

theorem Rounds.unique (h : plan.Rounds k w w₁) (h' : plan.Rounds k w w₂) : w₁ = w₂ := by
  induction h generalizing w₂ with
  | start w => cases h'; rfl
  | next before round ih =>
    cases h' with
    | next before' round' =>
      obtain rfl := ih before'
      exact round.unique round'

/-- Rounds that are over contain those before them, each of which has ended. -/
theorem Rounds.exists_round (h : plan.Rounds k w w₁) (hj : j < k) :
    ∃ w₂ w₃, plan.Rounds j w w₂ ∧ plan.Round j w₂ w₃ := by
  induction h with
  | start w => omega
  | @next k w w₁ w₂ before round ih =>
    rcases Nat.lt_or_eq_of_le (Nat.le_of_lt_succ hj) with hlt | rfl
    · exact ih hlt
    · exact ⟨w₁, w₂, before, round⟩

/-- The round with number `k` begins in the state `w` and never ends. -/
structure Hangs (plan : LoopPlan) (k : Nat) (w : World) : Prop where
  goes : plan.goes k = true
  live : w.aborted = false
  endless : ∀ o, ¬ Finishes (.execute plan.body false) (plan.prepare k w) o

/-- After any number of rounds the loop ends, has another round, or hangs in one. -/
theorem ending_or_round_or_hangs (plan : LoopPlan) (k : Nat) (w : World) :
    (∃ o, plan.Ending k w o) ∨ (∃ w', plan.Round k w w') ∨ plan.Hangs k w := by
  by_cases hgoes : plan.goes k = true
  · cases habort : w.aborted with
    | true => exact .inl ⟨_, .aborted habort (.inr hgoes)⟩
    | false =>
      by_cases hends : ∃ o, Finishes (.execute plan.body false) (plan.prepare k w) o
      · obtain ⟨o, ho⟩ := hends
        cases o with
        | done v w' => exact .inr (.inl ⟨w', hgoes, habort, v, ho⟩)
        | exit e w' => exact .inl ⟨_, .left hgoes habort ho⟩
        | exhausted => exact absurd rfl ho.1
      · exact .inr (.inr ⟨hgoes, habort, fun o ho => hends ⟨o, ho⟩⟩)
  · rw [Bool.not_eq_true] at hgoes
    by_cases hstops : plan.heedsLast = true ∧ w.aborted = true
    · exact .inl ⟨_, .aborted hstops.2 (.inl hstops.1)⟩
    · exact .inl ⟨_, .finished hgoes (by simpa using hstops)⟩

theorem Ending.not_goes (h : plan.Ending k w o) (hgoes : plan.goes k = true)
    (hlive : w.aborted = false) :
    ∃ e w', o = .exit e w' ∧
      Finishes (.execute plan.body false) (plan.prepare k w) (.exit e w') := by
  cases h with
  | finished hover _ => exact absurd hover (by simp [hgoes])
  | aborted haborted _ => exact absurd haborted (by simp [hlive])
  | left _ _ hleft => exact ⟨_, _, rfl, hleft⟩

theorem Ending.not_round (h : plan.Ending k w o) : ¬ plan.Round k w w₁ := by
  intro hround
  obtain ⟨v, hdone⟩ := hround.finishes
  obtain ⟨e, w', -, hexit⟩ := h.not_goes hround.goes hround.live
  cases hdone.unique hexit

theorem Ending.not_hangs (h : plan.Ending k w o) : ¬ plan.Hangs k w := by
  intro hhangs
  obtain ⟨e, w', -, hexit⟩ := h.not_goes hhangs.goes hhangs.live
  exact hhangs.endless _ hexit

theorem Hangs.not_round (h : plan.Hangs k w) : ¬ plan.Round k w w₁ := by
  intro hround
  obtain ⟨v, hdone⟩ := hround.finishes
  exact h.endless _ hdone

/-- A loop does not end if it has a round after every round, or else a round that does not end. -/
theorem not_concludes_iff :
    (∀ o, ¬ Concludes plan.run w o) ↔
      (∀ k, ∃ w₁, plan.Rounds k w w₁) ∨ ∃ k w₁, plan.Rounds k w w₁ ∧ plan.Hangs k w₁ := by
  simp only [concludes_iff]
  constructor
  · intro hnone
    by_cases hhangs : ∃ k w₁, plan.Rounds k w w₁ ∧ plan.Hangs k w₁
    · exact .inr hhangs
    · -- Every round that is reached then has another after it.
      refine .inl fun k => ?_
      induction k with
      | zero => exact ⟨w, .start w⟩
      | succ k ih =>
        obtain ⟨w₁, hrounds⟩ := ih
        rcases plan.ending_or_round_or_hangs k w₁ with ⟨o, ho⟩ | ⟨w₂, hround⟩ | hhang
        · exact absurd ⟨k, w₁, hrounds, ho⟩ (hnone o)
        · exact ⟨w₂, hrounds.next hround⟩
        · exact absurd ⟨k, w₁, hrounds, hhang⟩ hhangs
  · -- There is one chain of rounds only, so it cannot both end after `k` of them and go on.
    rintro (hall | ⟨j, w₂, hrounds₂, hhangs⟩) o ⟨k, w₁, hrounds, hending⟩
    · obtain ⟨w₂, hnext⟩ := hall (k + 1)
      obtain ⟨w₃, w₄, hrounds₃, hround⟩ := hnext.exists_round (Nat.lt_succ_self k)
      obtain rfl := hrounds.unique hrounds₃
      exact hending.not_round hround
    · rcases Nat.lt_trichotomy j k with hlt | rfl | hlt
      · obtain ⟨w₃, w₄, hrounds₃, hround⟩ := hrounds.exists_round hlt
        obtain rfl := hrounds₂.unique hrounds₃
        exact hhangs.not_round hround
      · obtain rfl := hrounds.unique hrounds₂
        exact hending.not_hangs hhangs
      · obtain ⟨w₃, w₄, hrounds₃, hround⟩ := hrounds₂.exists_round hlt
        obtain rfl := hrounds.unique hrounds₃
        exact hending.not_round hround

/-! ## What rounds keep -/

/-- A round keeps what running instructions keeps. -/
theorem Round.balanced (h : plan.Round k w w₁) : Balanced (plan.prepare k w) w₁ := by
  obtain ⟨v, -, fuel, hdone⟩ := h.finishes
  have hends := (run_balanced fuel (plan.prepare k w) plan.body [] false .nothing "").1
  rw [show (engineOn fuel).execute plan.body false (plan.prepare k w) = .done v w₁
    from hdone] at hends
  exact hends

end LoopPlan

end TurtleLogo
