import TurtleLogo.Proofs.Decimal.Value
import TurtleLogo.Proofs.Run.Assignment
import TurtleLogo.Proofs.Run.Loop

set_option autoImplicit false

/-! # Counting loops

A loop that counts goes through `start`, `start + step`, … whatever its rounds do to the variable.
It compares signs and not values to find the end; for whole numbers this comes to as many rounds as
there are values up to the limit (`roundsTo`). -/

namespace TurtleLogo

open Decimal (value?)

variable {name : String} {start limit step : Float} {code : List Atom} {k n : Nat}
variable {w w' : World} {a l s : Int}

/-! ## Rounds -/

/-- The values that a loop counts through. -/
def countAt (start step : Float) : Nat → Float
  | 0 => start
  | k + 1 => countAt start step k + step

/-- Whether a value lies beyond the limit in the direction of the step. -/
def passes (limit step x : Float) : Bool :=
  Act.sign (x - limit) = Act.sign step

/-- The rounds of a counting loop: each has the variable at the next value. -/
def counting (name : String) (start limit step : Float) (code : List Atom) : LoopPlan where
  goes k := !passes limit step (countAt start step k)
  prepare k w := { w with frames := w.frames.bindLocal name (.number (countAt start step k)) }
  body := code
  heedsLast := true

theorem countFrom_eq (eng : Engine) (rounds : Nat) :
    Act.countFrom name limit step (eng.perform code) rounds (countAt start step k)
      = (counting name start limit step code).runFrom eng rounds k := by
  induction rounds generalizing k with
  | zero => rfl
  | succ rounds ih =>
    funext w
    unfold Act.countFrom
    -- The host is heeded before the value is looked at.
    cases habort : w.aborted with
    | true =>
      rw [Run.bind_exit (Run.heedAbort_stop habort)]
      exact (LoopPlan.runFrom_aborted habort (.inl rfl)).symm
    | false =>
      rw [Run.bind_done (Run.heedAbort_go habort)]
      by_cases hpast : Act.sign (countAt start step k - limit) = Act.sign step
      · have hover : (counting name start limit step code).goes k = false := by
          simp [counting, passes, hpast]
        rw [if_pos hpast, LoopPlan.runFrom_over hover fun _ => habort]
        rfl
      · have hgoes : (counting name start limit step code).goes k = true := by
          simp [counting, passes, hpast]
        have hnext := ih (k := k + 1)
        simp only [countAt] at hnext
        rw [if_neg hpast, hnext, LoopPlan.runFrom_goes hgoes habort]
        rfl

/-- The loop as a primitive runs it. -/
theorem concludes_countFrom_iff {o : Outcome Unit} :
    Concludes (fun eng => Act.countFrom name limit step (eng.perform code) eng.rounds start) w o ↔
      Concludes (counting name start limit step code).run w o := by
  have hsame : (fun eng => Act.countFrom name limit step (eng.perform code) eng.rounds start)
      = (counting name start limit step code).run := by
    funext eng
    show Act.countFrom name limit step (eng.perform code) eng.rounds (countAt start step 0) = _
    exact countFrom_eq eng eng.rounds
  rw [hsame]

/-- A counting loop ends normally after the last round before a value that is past the limit. -/
theorem counting_done_iff :
    Concludes (counting name start limit step code).run w (.done () w') ↔
      ∃ n, (counting name start limit step code).Rounds n w w' ∧
        passes limit step (countAt start step n) = true ∧ w'.aborted = false := by
  rw [LoopPlan.concludes_iff]
  constructor
  · rintro ⟨n, w₁, hrounds, hending⟩
    cases hending with
    | finished hover hlive => exact ⟨n, hrounds, by simpa [counting] using hover, hlive rfl⟩
  · rintro ⟨n, hrounds, hpast, hlive⟩
    exact ⟨n, w', hrounds, .finished (by simpa [counting] using hpast) fun _ => hlive⟩

theorem depth_of_rounds (h : (counting name start limit step code).Rounds k w w') :
    w'.frames.depth = w.frames.depth := by
  induction h with
  | start w => rfl
  | next before round ih =>
    rw [round.balanced.depth, ← ih]
    exact Frames.depth_modifyInnermost _ _

theorem not_passes_of_rounds (h : (counting name start limit step code).Rounds n w w')
    (hk : k < n) : passes limit step (countAt start step k) = false := by
  obtain ⟨w₁, w₂, -, hround⟩ := h.exists_round hk
  simpa [counting] using hround.goes

/-! ## Whole numbers -/

theorem value?_zero : value? 0.0 = some 0 := by
  have hparts : Decimal.parts 0.0 = .finite false 0 (-1074) := rfl
  simp [value?, hparts]

theorem value?_one : value? 1.0 = some ((1 : Int) : ℚ) := by
  have hparts : Decimal.parts 1.0 = .finite false (2 ^ 52) (-52) := rfl
  simp only [value?, hparts]
  norm_num

theorem value?_neg_one : value? (-1.0) = some ((-1 : Int) : ℚ) := by
  have hparts : Decimal.parts (-1.0) = .finite true (2 ^ 52) (-52) := rfl
  simp only [value?, hparts]
  norm_num

/-- A value is past the limit if it lies beyond it on the side to which the step leads. -/
theorem passes_iff {x : Float} {p q r : ℚ} (hx : value? x = some p) (hlimit : value? limit = some q)
    (hstep : value? step = some r) (hr : r ≠ 0) :
    passes limit step x = true ↔ (0 < r ∧ q < p) ∨ (r < 0 ∧ p < q) := by
  have hpos := Decimal.sub_pos_iff hx hlimit
  have hneg := Decimal.sub_neg_iff hx hlimit
  have hup : step > 0.0 ↔ 0 < r := Decimal.lt_iff value?_zero hstep
  have hdown : step < 0.0 ↔ r < 0 := Decimal.lt_iff hstep value?_zero
  simp only [passes, Act.sign, hpos, hneg, hup, hdown, decide_eq_true_eq]
  rcases lt_or_gt_of_ne hr with hlt | hgt
  · simp only [hlt, not_lt.mpr hlt.le, if_true, if_false, true_and, false_and, false_or]
    split_ifs with h₁ h₂ <;> simp <;> linarith
  · simp only [hgt, not_lt.mpr hgt.le, if_true, true_and, false_and, or_false]
    split_ifs with h₁ h₂ <;> simp <;> linarith

/-- How many of `a`, `a + s`, `a + 2 * s`, … there are up to `l`. -/
def roundsTo (a l s : Int) : Nat :=
  (⌊((l - a : Int) : ℚ) / s⌋ + 1).toNat

theorem roundsTo_le_iff (hs : s ≠ 0) :
    roundsTo a l s ≤ k ↔ (0 < s ∧ l < a + k * s) ∨ (s < 0 ∧ a + k * s < l) := by
  rw [roundsTo, Int.toNat_le, Int.add_one_le_iff, Int.floor_lt]
  rcases lt_or_gt_of_ne hs with hlt | hgt
  · have hneg : (s : ℚ) < 0 := Int.cast_lt_zero.mpr hlt
    rw [div_lt_iff_of_neg hneg, ← Int.cast_mul, Int.cast_lt]
    omega
  · have hpos : (0 : ℚ) < s := Int.cast_pos.mpr hgt
    rw [div_lt_iff₀ hpos, ← Int.cast_mul, Int.cast_lt]
    omega

theorem roundsTo_one : roundsTo a l 1 = (l - a + 1).toNat := by
  rw [roundsTo, Int.cast_one, div_one, Int.floor_intCast]

theorem roundsTo_neg_one : roundsTo a l (-1) = (a - l + 1).toNat := by
  rw [roundsTo, Int.cast_neg, Int.cast_one, div_neg, div_one, ← Int.cast_neg, Int.floor_intCast,
    neg_sub]

/-- What lies between two numbers is no larger than both. -/
theorem natAbs_between {m : Nat} (ha : a.natAbs ≤ m) (hlast : (a + n * s).natAbs ≤ m) (hk : k ≤ n) :
    (a + k * s).natAbs ≤ m := by
  have hle : (k : Int) ≤ n := by exact_mod_cast hk
  rcases le_total 0 s with hs | hs
  · have h₁ : 0 ≤ k * s := by positivity
    have h₂ : k * s ≤ n * s := mul_le_mul_of_nonneg_right hle hs
    omega
  · have h₁ : k * s ≤ 0 := mul_nonpos_of_nonneg_of_nonpos (by positivity) hs
    have h₂ : n * s ≤ k * s := mul_le_mul_of_nonpos_right hle hs
    omega

/-- The bounds and the step are whole numbers, and the counter stays where whole numbers are
exact. -/
structure Whole (start limit step : Float) (a l s : Int) : Prop where
  start : value? start = some a
  limit : value? limit = some l
  step : value? step = some s
  ne_zero : s ≠ 0
  first : a.natAbs ≤ 2 ^ 53
  last : (a + roundsTo a l s * s).natAbs ≤ 2 ^ 53

theorem Whole.countAt (h : Whole start limit step a l s) (hk : k ≤ roundsTo a l s) :
    value? (countAt start step k) = some ((a + k * s : Int) : ℚ) := by
  induction k with
  | zero => simpa [TurtleLogo.countAt] using h.start
  | succ k ih =>
    have hbound := natAbs_between h.first h.last hk
    have hsum : a + (k + 1 : Nat) * s = (a + k * s) + s := by push_cast; ring
    rw [hsum] at hbound ⊢
    exact Decimal.value?_add_of_int (ih (by omega)) h.step hbound

theorem Whole.passes_iff (h : Whole start limit step a l s) (hk : k ≤ roundsTo a l s) :
    passes limit step (TurtleLogo.countAt start step k) = true ↔ k = roundsTo a l s := by
  have hne : (s : ℚ) ≠ 0 := by exact_mod_cast h.ne_zero
  rw [TurtleLogo.passes_iff (h.countAt hk) h.limit h.step hne, Int.cast_pos, Int.cast_lt_zero,
    Int.cast_lt, Int.cast_lt, ← roundsTo_le_iff h.ne_zero]
  omega

/-- A loop over whole numbers that ends normally has a round for each of them up to the limit. -/
theorem Whole.counting_done_iff (h : Whole start limit step a l s) :
    Concludes (counting name start limit step code).run w (.done () w') ↔
      (counting name start limit step code).Rounds (roundsTo a l s) w w' ∧ w'.aborted = false := by
  have hpast := (h.passes_iff (Nat.le_refl _)).mpr rfl
  rw [TurtleLogo.counting_done_iff]
  constructor
  · rintro ⟨n, hrounds, hover, hlive⟩
    have hn : n = roundsTo a l s := by
      -- With more rounds there would have been one for a value that is past the limit.
      rcases Nat.lt_or_ge (roundsTo a l s) n with hlt | hle
      · rw [not_passes_of_rounds hrounds hlt] at hpast
        cases hpast
      · exact (h.passes_iff hle).mp hover
    exact ⟨hn ▸ hrounds, hlive⟩
  · rintro ⟨hrounds, hlive⟩
    exact ⟨_, hrounds, hpast, hlive⟩

/-! ## The primitives -/

variable {me : String} {header : Atom} {rest : List Atom} {w₀ : World}

/-- The header of a `FOR`: a variable, and atoms that evaluate to the bounds. -/
structure ForHeader (me : String) (header : Atom) (name : String) (bounds : List Float)
    (w w₀ : World) : Prop where
  spelled : ∃ v atoms, header = .list (.word v :: atoms) ∧ name = Act.bareName v ∧
    Concludes (fun eng => Act.boundsFrom eng me header atoms.length atoms) w (.done bounds w₀)

/-- The header of a `DOTIMES`: a variable, and atoms that evaluate to the number of rounds. -/
structure TimesHeader (me : String) (header : Atom) (name : String) (count : Float)
    (w w₀ : World) : Prop where
  spelled : ∃ v atom atoms, header = .list (.word v :: atom :: atoms) ∧ name = Act.bareName v ∧
    Concludes (fun eng => Act.loopCount eng me header (atom :: atoms)) w (.done count w₀)

/-- The step of a `FOR` that is given none. -/
def unitStep (start limit : Float) : Float :=
  if limit < start then -1.0 else 1.0

theorem concludes_then_none_iff {m : Engine → Run Unit} {v : Option Atom} :
    Concludes (fun eng => m eng >>= fun _ => pure none) w (.done v w') ↔
      v = none ∧ Concludes m w (.done () w') := by
  constructor
  · rintro ⟨-, fuel, hdone⟩
    obtain ⟨u, w₁, hm, hpure⟩ := Run.bind_eq_done.mp hdone
    obtain ⟨rfl, rfl⟩ := Outcome.done.inj hpure
    exact ⟨rfl, by simp, fuel, hm⟩
  · rintro ⟨rfl, -, fuel, hdone⟩
    exact ⟨by simp, fuel, Run.bind_done hdone _⟩

/-- Counts, and gives no value. -/
def countThrough (name : String) (start limit step : Float) (code : List Atom) (eng : Engine) :
    Run (Option Atom) := do
  Act.countFrom name limit step (eng.perform code) eng.rounds start
  pure none

theorem steady_countThrough : Steady (countThrough name start limit step code) :=
  .of_compatible fun h hcut he =>
    h.bind (h.countFrom hcut (h.perform he code) name limit step _ _ start rfl he.rounds) fun _ =>
      h.done none

theorem countThrough_done_iff {v : Option Atom} :
    Concludes (countThrough name start limit step code) w (.done v w') ↔
      v = none ∧ Concludes (counting name start limit step code).run w (.done () w') :=
  concludes_then_none_iff.trans (and_congr_right fun _ => concludes_countFrom_iff)

/-- What `FOR` does with its bounds. -/
def countOver (me : String) (header : Atom) (name : String) (code : List Atom) (eng : Engine) :
    List Float → Run (Option Atom)
  | [start, limit] => countThrough name start limit (unitStep start limit) code eng
  | [start, limit, step] => countThrough name start limit step code eng
  | _ => Run.fail (.unsuitable .badInput me header)

theorem ForHeader.done_iff {v : Option Atom} (h : ForHeader me header name [start, limit] w w₀) :
    Concludes (fun eng => Act.forRange eng me (header :: .list code :: rest)) w (.done v w') ↔
      v = none ∧
        Concludes (counting name start limit (unitStep start limit) code).run w₀ (.done () w') := by
  obtain ⟨u, atoms, rfl, rfl, hbounds⟩ := h.spelled
  have hsteady : Steady fun eng =>
      Act.boundsFrom eng me (.list (.word u :: atoms)) atoms.length atoms :=
    .of_compatible fun h _ he => h.boundsFrom he me _ _ atoms
  rw [← countThrough_done_iff]
  exact concludes_bind_of_done
    (f := countOver me (.list (.word u :: atoms)) (Act.bareName u) code) (a := [start, limit])
    hsteady steady_countThrough hbounds

theorem TimesHeader.done_iff {v : Option Atom} (h : TimesHeader me header name limit w w₀) :
    Concludes (fun eng => Act.doTimes eng me (header :: .list code :: rest)) w (.done v w') ↔
      v = none ∧ Concludes (counting name 1.0 limit 1.0 code).run w₀ (.done () w') := by
  obtain ⟨u, atom, atoms, rfl, rfl, hcount⟩ := h.spelled
  have hsteady : Steady fun eng =>
      Act.loopCount eng me (.list (.word u :: atom :: atoms)) (atom :: atoms) :=
    .of_compatible fun h _ he => h.loopCount he me _ (atom :: atoms)
  rw [← countThrough_done_iff]
  exact concludes_bind_of_done
    (f := fun eng count => countThrough (Act.bareName u) 1.0 count 1.0 code eng) hsteady
    steady_countThrough hcount

theorem whole_unitStep (hstart : value? start = some a) (hlimit : value? limit = some l)
    (ha : a.natAbs ≤ 2 ^ 53) (hl : l.natAbs < 2 ^ 53) :
    Whole start limit (unitStep start limit) a l (if l < a then -1 else 1) := by
  have hdown : limit < start ↔ l < a := (Decimal.lt_iff hlimit hstart).trans Int.cast_lt
  unfold unitStep
  by_cases hlt : l < a
  · rw [if_pos hlt, if_pos (hdown.mpr hlt)]
    refine ⟨hstart, hlimit, value?_neg_one, by decide, ha, ?_⟩
    rw [roundsTo_neg_one]
    omega
  · rw [if_neg hlt, if_neg (mt hdown.mp hlt)]
    refine ⟨hstart, hlimit, value?_one, by decide, ha, ?_⟩
    rw [roundsTo_one]
    omega

theorem roundsTo_unit : roundsTo a l (if l < a then -1 else 1) = (l - a).natAbs + 1 := by
  split_ifs with hlt
  · rw [roundsTo_neg_one]
    omega
  · rw [roundsTo_one]
    omega

theorem whole_one (hlimit : value? limit = some l) (hl : l.natAbs < 2 ^ 53) :
    Whole 1.0 limit 1.0 1 l 1 := by
  refine ⟨value?_one, hlimit, value?_one, by decide, by decide, ?_⟩
  rw [roundsTo_one]
  omega

/-- A counting loop that ends normally has had one round for each value before the first that is
past the limit, each beginning where the one before ended with the variable at the next value in the
same innermost frame, whatever the rounds before did to it. For whole numbers there are as many
rounds as values up to the limit; so a `FOR` without a step reaches both of its bounds, and a
`DOTIMES` counts from one to its bound. -/
theorem counting_loops_exact (name : String) (start limit step : Float) (code : List Atom)
    (w : World) :
    (∀ w', Concludes (fun eng => Act.countFrom name limit step (eng.perform code) eng.rounds start)
        w (.done () w') ↔
      ∃ n, (counting name start limit step code).Rounds n w w' ∧
        (∀ k < n, passes limit step (countAt start step k) = false) ∧
        passes limit step (countAt start step n) = true ∧ w'.aborted = false) ∧
    (∀ k w₁, (counting name start limit step code).Rounds k w w₁ →
      w₁.frames.depth = w.frames.depth ∧
      w₁.frames.Writes ((counting name start limit step code).prepare k w₁).frames name
        (.number (countAt start step k)) 0) ∧
    (∀ a l s, Whole start limit step a l s →
      (∀ k ≤ roundsTo a l s, value? (countAt start step k) = some ((a + k * s : Int) : ℚ)) ∧
      ∀ w', Concludes
          (fun eng => Act.countFrom name limit step (eng.perform code) eng.rounds start)
          w (.done () w') ↔
        (counting name start limit step code).Rounds (roundsTo a l s) w w' ∧
          w'.aborted = false) ∧
    (∀ me header rest w₀ (a l : Int), ForHeader me header name [start, limit] w w₀ →
      value? start = some a → value? limit = some l → a.natAbs ≤ 2 ^ 53 → l.natAbs < 2 ^ 53 →
      (∀ k : Nat, k ≤ (l - a).natAbs → value? (countAt start (unitStep start limit) k)
        = some ((if l < a then a - k else a + k : Int) : ℚ)) ∧
      ∀ v w', Concludes (fun eng => Act.forRange eng me (header :: .list code :: rest)) w
          (.done v w') ↔
        v = none ∧ (counting name start limit (unitStep start limit) code).Rounds
          ((l - a).natAbs + 1) w₀ w' ∧ w'.aborted = false) ∧
    (∀ me header rest w₀ (l : Int), TimesHeader me header name limit w w₀ →
      value? limit = some l → l.natAbs < 2 ^ 53 →
      (∀ k < l.toNat, value? (countAt 1.0 1.0 k) = some ((k + 1 : Nat) : ℚ)) ∧
      ∀ v w', Concludes (fun eng => Act.doTimes eng me (header :: .list code :: rest)) w
          (.done v w') ↔
        v = none ∧ (counting name 1.0 limit 1.0 code).Rounds l.toNat w₀ w' ∧
          w'.aborted = false) := by
  refine ⟨?_, ?_, ?_, ?_, ?_⟩
  · intro w'
    rw [concludes_countFrom_iff, counting_done_iff]
    refine exists_congr fun n => ?_
    constructor
    · rintro ⟨hrounds, hpast, hlive⟩
      exact ⟨hrounds, fun k => not_passes_of_rounds hrounds, hpast, hlive⟩
    · rintro ⟨hrounds, -, hpast, hlive⟩
      exact ⟨hrounds, hpast, hlive⟩
  · intro k w₁ hrounds
    exact ⟨depth_of_rounds hrounds, .of_all (Frames.all_modifyInnermost _ _) (Nat.succ_pos _)⟩
  · intro a l s hwhole
    refine ⟨fun k => hwhole.countAt, fun w' => ?_⟩
    rw [concludes_countFrom_iff, hwhole.counting_done_iff]
  · intro me header rest w₀ a l hheader hstart hlimit ha hl
    have hwhole := whole_unitStep hstart hlimit ha hl
    refine ⟨fun k hk => ?_, fun v w' => ?_⟩
    · -- The limit itself is the last value before the one that ends the loop.
      rw [hwhole.countAt (by rw [roundsTo_unit]; omega)]
      congr 2
      split_ifs <;> ring
    · rw [hheader.done_iff, hwhole.counting_done_iff, roundsTo_unit]
  · intro me header rest w₀ l hheader hlimit hl
    have hwhole := whole_one hlimit hl
    have hrounds : roundsTo 1 l 1 = l.toNat := by
      rw [roundsTo_one]
      congr 1
      ring
    refine ⟨fun k hk => ?_, fun v w' => ?_⟩
    · rw [hwhole.countAt (by omega)]
      congr 1
      push_cast
      ring
    · rw [hheader.done_iff, hwhole.counting_done_iff, hrounds]

/-- A loop that counts down, with rounds that assign the variable. -/
theorem counting_loops_exact_reassigned : ∃ w',
    Concludes (fun eng => Act.forRange eng "FOR" [.list [.word "i", .number 3.0, .number 1.0],
        .list [.word "make", .word "\"i", .number 9.0]])
      { procedures := ⟨[("make", ⟨"MAKE", .primitive .make, .fixed 2⟩)]⟩ } (.done none w') ∧
    (counting "i" 3.0 1.0 (unitStep 3.0 1.0)
        [.word "make", .word "\"i", .number 9.0]).Rounds 3
      { procedures := ⟨[("make", ⟨"MAKE", .primitive .make, .fixed 2⟩)]⟩ } w' ∧
    value? (countAt 3.0 (unitStep 3.0 1.0) 2) = some 1 := by
  obtain ⟨-, -, -, hfor, -⟩ := counting_loops_exact "i" 3.0 1.0 1.0
    [.word "make", .word "\"i", .number 9.0]
    { procedures := ⟨[("make", ⟨"MAKE", .primitive .make, .fixed 2⟩)]⟩ }
  have hheader : ForHeader "FOR" (.list [.word "i", .number 3.0, .number 1.0]) "i" [3.0, 1.0]
      { procedures := ⟨[("make", ⟨"MAKE", .primitive .make, .fixed 2⟩)]⟩ }
      { procedures := ⟨[("make", ⟨"MAKE", .primitive .make, .fixed 2⟩)]⟩ } :=
    ⟨"i", [.number 3.0, .number 1.0], rfl, by decide +kernel, by simp, 2, rfl⟩
  have hthree : value? 3.0 = some ((3 : Int) : ℚ) := by
    have hparts : Decimal.parts 3.0 = .finite false (3 * 2 ^ 51) (-51) := rfl
    simp only [value?, hparts]
    norm_num
  obtain ⟨hvalues, hdone⟩ := hfor "FOR" _ [] _ 3 1 hheader hthree value?_one (by decide) (by decide)
  obtain ⟨w', hends⟩ : ∃ w', Concludes (fun eng => Act.forRange eng "FOR"
      [.list [.word "i", .number 3.0, .number 1.0], .list [.word "make", .word "\"i", .number 9.0]])
      { procedures := ⟨[("make", ⟨"MAKE", .primitive .make, .fixed 2⟩)]⟩ } (.done none w') := by
    have heval : (match Act.forRange (engineOn 6) "FOR"
          [.list [.word "i", .number 3.0, .number 1.0],
          .list [.word "make", .word "\"i", .number 9.0]]
          { procedures := ⟨[("make", ⟨"MAKE", .primitive .make, .fixed 2⟩)]⟩ } with
        | .done none _ => true
        | _ => false) = true := by decide +kernel
    split at heval
    · next w' hrun => exact ⟨w', by simp, 6, hrun⟩
    · cases heval
  refine ⟨w', hends, ((hdone none w').mp hends).2.1, ?_⟩
  rw [hvalues 2 (by decide)]
  norm_num

end TurtleLogo
