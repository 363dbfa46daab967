import TurtleLogo.Proofs.Decimal.Round

set_option autoImplicit false

/-! # The number that a double stands for

`value?` gives it as a rational number. A difference has the sign of the exact difference, whatever
is lost to rounding (`sub_pos_iff`, `sub_neg_iff`), and a sum of whole numbers is exact as long as
it stays within `2 ^ 53` (`value?_add_of_int`). -/

open Float.Model Float.Model.UnpackedFloat

namespace TurtleLogo.Decimal

/-- The number that a finite double stands for. -/
def value? (x : Float) : Option ℚ :=
  match parts x with
  | .finite negative m q => some ((if negative then -(m : ℚ) else m) * 2 ^ q)
  | .infinite _ | .nan => none

/-! ## Parts and units -/

/-- The sign that a flag stands for. -/
def signOf (negative : Bool) : Sign :=
  if negative then .negative else .positive

/-- Two ways of taking the same double apart. -/
inductive Agree : Parts → UnpackedFloat → Prop
  | infinite (negative : Bool) : Agree (.infinite negative) (.infinity (signOf negative))
  | nan : Agree .nan .notANumber
  | zero (negative : Bool) : Agree (.finite negative 0 (-1074)) (.zero (signOf negative))
  | finite (negative : Bool) {m : Nat} {e : Int} (h : Canonical m e) :
    Agree (.finite negative m e) (.finite (signOf negative) m e h.pos)

theorem ofBitVec_signField (x : Float) :
    Sign.ofBitVec (signField x) = signOf (x.toBits.toNat.testBit 63) := by
  have hbit := toNat_signField x
  cases hsign : x.toBits.toNat.testBit 63 with
  | true =>
    have hone : signField x = 1#1 := BitVec.eq_of_toNat_eq (by rw [hbit, hsign]; rfl)
    rw [hone]
    rfl
  | false =>
    have hzero : signField x = 0#1 := BitVec.eq_of_toNat_eq (by rw [hbit, hsign]; rfl)
    rw [hzero]
    rfl

/-- The parts of a double by its fields. -/
theorem parts_eq (x : Float) :
    parts x
      = if exponentField x = -1#11 then
          if fractionField x = 0#52 then .infinite (x.toBits.toNat.testBit 63) else .nan
        else if exponentField x = 0#11 then
          .finite (x.toBits.toNat.testBit 63) (fractionField x).toNat (-1074)
        else .finite (x.toBits.toNat.testBit 63) (2 ^ 52 + (fractionField x).toNat)
          ((exponentField x).toNat - 1075) := by
  have hdefinition : parts x
      = if (exponentField x).toNat = (-1#11).toNat then
          if (fractionField x).toNat = (0#52).toNat then .infinite (x.toBits.toNat.testBit 63)
          else .nan
        else if (exponentField x).toNat = (0#11).toNat then
          .finite (x.toBits.toNat.testBit 63) (fractionField x).toNat (-1074)
        else .finite (x.toBits.toNat.testBit 63) (2 ^ 52 + (fractionField x).toNat)
          ((exponentField x).toNat - 1075) := by
    rw [toNat_exponentField, toNat_fractionField]
    rfl
  simp only [hdefinition, BitVec.toNat_inj]

theorem agree_parts (x : Float) : Agree (parts x) x.toModel.unpack := by
  have hunpack : x.toModel.unpack = unpack .binary64 x.toModel.toBits.toBitVec := rfl
  have hsign := ofBitVec_signField x
  rw [parts_eq, hunpack]
  by_cases htop : exponentField x = -1#11
  · rw [if_pos htop]
    by_cases hnone : fractionField x = 0#52
    · rw [if_pos hnone, unpack_infinite htop hnone, hsign]
      exact .infinite _
    · have hnan : unpack .binary64 x.toModel.toBits.toBitVec = .notANumber :=
        (if_pos htop).trans (if_neg hnone)
      rw [if_neg hnone, hnan]
      exact .nan
  · rw [if_neg htop]
    by_cases hsmall : exponentField x = 0#11
    · rw [if_pos hsmall]
      by_cases hnone : fractionField x = 0#52
      · rw [hnone, unpack_zero hsmall hnone, hsign]
        exact .zero _
      · obtain ⟨hpos, heq⟩ := unpack_small hsmall hnone
        have hcanonical := canonical_of_unpack heq
        rw [heq, hsign]
        exact .finite _ hcanonical
    · obtain ⟨hpos, heq⟩ := unpack_normal htop hsmall
      have hcanonical := canonical_of_unpack heq
      rw [if_neg hsmall, heq, hsign]
      exact .finite _ hcanonical

variable {x y : Float} {p q : ℚ} {n : Int}

/-- How many units make one. -/
def unitsPerOne : Nat :=
  2 ^ 1074

theorem two_pow_mul_unitsPerOne (k : Nat) : 2 ^ k * unitsPerOne = 2 ^ (k + 1074) := by
  rw [unitsPerOne, Nat.pow_add]

theorem unitsPerOne_pos : (0 : ℚ) < unitsPerOne := by
  unfold unitsPerOne
  generalize 1074 = k
  positivity

theorem units_eq_value (negative : Bool) (m : Nat) {e : Int} (he : -1074 ≤ e) :
    (((signOf negative).apply (m * 2 ^ (e + 1074).toNat : Nat) : Int) : ℚ)
      = (if negative then -(m : ℚ) else m) * 2 ^ e * unitsPerOne := by
  obtain ⟨k, hk⟩ := Int.eq_ofNat_of_zero_le (show 0 ≤ e + 1074 by omega)
  have hscale : (2 : ℚ) ^ e * unitsPerOne = 2 ^ k := by
    rw [unitsPerOne, Nat.cast_pow, Nat.cast_ofNat, ← zpow_natCast, ← zpow_natCast,
      ← zpow_add₀ two_ne_zero, ← hk]
    rfl
  rw [mul_assoc, hscale, hk, Int.toNat_natCast]
  cases negative with
  | true => simp [signOf, Sign.apply]
  | false => simp [signOf, Sign.apply]

/-- A finite double stands for its units. -/
theorem value?_eq_some_iff :
    value? x = some p ↔ ∃ n : Int, HasUnits x.toModel.unpack n ∧ (n : ℚ) = p * unitsPerOne := by
  have hagree := agree_parts x
  unfold value?
  generalize parts x = parts, x.toModel.unpack = u at hagree ⊢
  cases hagree with
  | infinite negative =>
    refine ⟨nofun, ?_⟩
    rintro ⟨n, hn, -⟩
    cases hn
  | nan =>
    refine ⟨nofun, ?_⟩
    rintro ⟨n, hn, -⟩
    cases hn
  | zero negative =>
    have hzero : (if negative then -((0 : Nat) : ℚ) else (0 : Nat)) * 2 ^ (-1074 : Int) = 0 := by
      simp
    constructor
    · intro h
      refine ⟨0, .zero _, ?_⟩
      rw [← Option.some.inj h, hzero, zero_mul, Int.cast_zero]
    · rintro ⟨n, hn, hp⟩
      cases hn
      rw [Int.cast_zero, zero_eq_mul] at hp
      rw [hp.resolve_right unitsPerOne_pos.ne']
      exact congrArg some hzero
  | @finite negative m e hm =>
    have hvalue := units_eq_value negative m hm.least
    constructor
    · intro h
      exact ⟨_, .finite _ hm, by rw [← Option.some.inj h, hvalue]⟩
    · rintro ⟨n, hn, hp⟩
      cases hn
      rw [hvalue] at hp
      exact congrArg some (mul_right_cancel₀ unitsPerOne_pos.ne' hp)

/-! ## Comparisons -/

/-- Of two doubles the one with the larger exponent has more units. -/
theorem Canonical.units_lt {m m' : Nat} {e e' : Int} (h : Canonical m e) (h' : Canonical m' e')
    (he : e < e') : m * 2 ^ (e + 1074).toNat < m' * 2 ^ (e' + 1074).toNat := by
  have hleast := h.least
  have hleading : 2 ^ 52 ≤ m' := h'.leading.resolve_left (by omega)
  have hexponent : (e + 1074).toNat + 1 ≤ (e' + 1074).toNat := by omega
  calc m * 2 ^ (e + 1074).toNat
      < 2 ^ 53 * 2 ^ (e + 1074).toNat := Nat.mul_lt_mul_of_pos_right h.lt (Nat.two_pow_pos _)
    _ = 2 ^ 52 * 2 ^ ((e + 1074).toNat + 1) := by ring
    _ ≤ m' * 2 ^ (e' + 1074).toNat :=
      Nat.mul_le_mul hleading (Nat.pow_le_pow_right (by omega) hexponent)

theorem Canonical.compare_units {m m' : Nat} {e e' : Int} (h : Canonical m e)
    (h' : Canonical m' e') :
    (compare e e').then (compare m m')
      = compare (m * 2 ^ (e + 1074).toNat) (m' * 2 ^ (e' + 1074).toNat) := by
  rcases lt_trichotomy e e' with hlt | rfl | hgt
  · rw [Int.compare_eq_lt.mpr hlt, Nat.compare_eq_lt.mpr (h.units_lt h' hlt)]
    rfl
  · rw [Int.compare_eq_eq.mpr rfl]
    have hscale := Nat.two_pow_pos (e + 1074).toNat
    rcases lt_trichotomy m m' with hlt | rfl | hgt
    · rw [Nat.compare_eq_lt.mpr hlt, Nat.compare_eq_lt.mpr (Nat.mul_lt_mul_of_pos_right hlt hscale)]
      rfl
    · rw [Nat.compare_eq_eq.mpr rfl, Nat.compare_eq_eq.mpr rfl]
      rfl
    · rw [Nat.compare_eq_gt.mpr hgt, Nat.compare_eq_gt.mpr (Nat.mul_lt_mul_of_pos_right hgt hscale)]
      rfl
  · rw [Int.compare_eq_gt.mpr hgt, Nat.compare_eq_gt.mpr (h'.units_lt h hgt)]
    rfl

/-- How a number of this sign compares with zero. -/
def signOrdering : Sign → Ordering
  | .negative => .lt
  | .positive => .gt

theorem compare_zero_finite (s s' : Sign) {m : Nat} (e : Int) (h : 0 < m) :
    UnpackedFloat.compare (.zero s) (.finite s' m e h) = some (signOrdering s').swap := by
  cases s' <;> rfl

theorem compare_finite_zero (s s' : Sign) {m : Nat} (e : Int) (h : 0 < m) :
    UnpackedFloat.compare (.finite s m e h) (.zero s') = some (signOrdering s) := by
  cases s <;> rfl

theorem compare_finite (s s' : Sign) {m m' : Nat} (e e' : Int) (h : 0 < m) (h' : 0 < m') :
    UnpackedFloat.compare (.finite s m e h) (.finite s' m' e' h')
      = some (match s, s' with
        | .negative, .negative => ((compare e e').then (compare m m')).swap
        | .negative, .positive => .lt
        | .positive, .negative => .gt
        | .positive, .positive => (compare e e').then (compare m m')) := by
  cases s <;> cases s' <;> rfl

/-- Doubles compare as their units do. -/
theorem HasUnits.lt_iff {u v : UnpackedFloat} {i j : Int} (hu : HasUnits u i) (hv : HasUnits v j) :
    UnpackedFloat.lt u v = true ↔ i < j := by
  unfold UnpackedFloat.lt
  rw [beq_iff_eq]
  cases hu with
  | zero s =>
    cases hv with
    | zero s' => exact ⟨nofun, fun h => absurd h (Int.lt_irrefl 0)⟩
    | @finite s' m' e' h' =>
      rw [compare_zero_finite]
      cases s' with
      | negative => simp [signOrdering, Sign.apply]
      | positive => simpa [signOrdering, Sign.apply] using h'.pos
  | @finite s m e h =>
    cases hv with
    | zero s' =>
      rw [compare_finite_zero]
      cases s with
      | negative => simpa [signOrdering, Sign.apply] using h.pos
      | positive => simp [signOrdering, Sign.apply]
    | @finite s' m' e' h' =>
      have hpos := Nat.mul_pos h.pos (Nat.two_pow_pos (e + 1074).toNat)
      have hpos' := Nat.mul_pos h'.pos (Nat.two_pow_pos (e' + 1074).toNat)
      rw [compare_finite, h.compare_units h']
      generalize m * 2 ^ (e + 1074).toNat = i, m' * 2 ^ (e' + 1074).toNat = j at *
      cases s with
      | negative =>
        cases s' with
        | negative =>
          simp only [Sign.apply, Option.some.injEq, Ordering.swap_eq_lt, Nat.compare_eq_gt]
          omega
        | positive =>
          simp only [Sign.apply, true_iff]
          omega
      | positive =>
        cases s' with
        | negative =>
          simp only [Sign.apply, Option.some.injEq, reduceCtorEq, false_iff]
          omega
        | positive =>
          simp only [Sign.apply, Option.some.injEq, Nat.compare_eq_lt]
          omega

/-- Doubles compare as the numbers they stand for. -/
theorem lt_iff (hx : value? x = some p) (hy : value? y = some q) : x < y ↔ p < q := by
  obtain ⟨i, hi, hp⟩ := value?_eq_some_iff.mp hx
  obtain ⟨j, hj, hq⟩ := value?_eq_some_iff.mp hy
  have hcompare : x < y ↔ i < j := decide_eq_true_iff.trans (hi.lt_iff hj)
  rw [hcompare, ← Int.cast_lt (R := ℚ), hp, hq, mul_lt_mul_iff_left₀ unitsPerOne_pos]

/-! ## Differences and sums -/

/-- How a float with a sign compares with zero. -/
theorem HasSign.compare_zero {s : Sign} {u : UnpackedFloat} (h : HasSign s u) :
    UnpackedFloat.compare (.zero .positive) u = some (signOrdering s).swap ∧
    UnpackedFloat.compare u (.zero .positive) = some (signOrdering s) := by
  cases u with
  | infinity s' => cases h; cases s <;> exact ⟨rfl, rfl⟩
  | finite s' m e hm => cases h; exact ⟨compare_zero_finite _ s e hm, compare_finite_zero s _ e hm⟩
  | zero s' => exact h.elim
  | notANumber => exact h.elim

theorem HasSign.lt_zero {s : Sign} {u : UnpackedFloat} (h : HasSign s u) :
    (UnpackedFloat.lt (.zero .positive) u = true ↔ s = .positive) ∧
    (UnpackedFloat.lt u (.zero .positive) = true ↔ s = .negative) := by
  obtain ⟨hleft, hright⟩ := h.compare_zero
  unfold UnpackedFloat.lt
  rw [hleft, hright]
  cases s <;> simp [signOrdering]

/-- Rounding does not change how a number compares with zero. -/
theorem Nearest.lt_zero {u : UnpackedFloat} {n : Int} (h : Nearest u n) :
    (UnpackedFloat.lt (.zero .positive) (unpack .binary64 (UnpackedFloat.pack .binary64 u)) = true ↔
      0 < n) ∧
    (UnpackedFloat.lt (unpack .binary64 (UnpackedFloat.pack .binary64 u)) (.zero .positive) = true ↔
      n < 0) := by
  by_cases hn : n = 0
  · subst hn
    obtain ⟨s, hs⟩ := h.unpack_pack_zero
    rw [hs]
    exact ⟨(HasUnits.zero _).lt_iff (.zero s), (HasUnits.zero s).lt_iff (.zero _)⟩
  · obtain ⟨s, m, hm, rfl⟩ := exists_apply n hn
    obtain ⟨hpos, hneg⟩ := (h.hasSign hm).lt_zero
    rw [hpos, hneg]
    cases s with
    | negative => simp [Sign.apply]; omega
    | positive => simp [Sign.apply]; omega

/-- A difference is positive if the exact one is: rounding gives no zero. -/
theorem sub_pos_iff (hx : value? x = some p) (hy : value? y = some q) : x - y > 0.0 ↔ q < p := by
  obtain ⟨i, hi, hp⟩ := value?_eq_some_iff.mp hx
  obtain ⟨j, hj, hq⟩ := value?_eq_some_iff.mp hy
  have hcompare : x - y > 0.0 ↔ 0 < i - j := decide_eq_true_iff.trans (hi.sub hj).lt_zero.1
  rw [hcompare, sub_pos, ← Int.cast_lt (R := ℚ), hp, hq, mul_lt_mul_iff_left₀ unitsPerOne_pos]

/-- A difference is negative if the exact one is. -/
theorem sub_neg_iff (hx : value? x = some p) (hy : value? y = some q) : x - y < 0.0 ↔ p < q := by
  obtain ⟨i, hi, hp⟩ := value?_eq_some_iff.mp hx
  obtain ⟨j, hj, hq⟩ := value?_eq_some_iff.mp hy
  have hcompare : x - y < 0.0 ↔ i - j < 0 := decide_eq_true_iff.trans (hi.sub hj).lt_zero.2
  rw [hcompare, sub_neg, ← Int.cast_lt (R := ℚ), hp, hq, mul_lt_mul_iff_left₀ unitsPerOne_pos]

/-- Every whole number within `2 ^ 53` is a double. -/
theorem exists_hasUnits_of_int {n : Int} (hn : n.natAbs ≤ 2 ^ 53) :
    ∃ u, HasUnits u (n * unitsPerOne) := by
  by_cases hzero : n = 0
  · exact ⟨.zero .positive, by rw [hzero, Int.zero_mul]; exact .zero _⟩
  obtain ⟨s, m, hm, rfl⟩ := exists_apply n hzero
  have habs : (s.apply m).natAbs = m := by cases s <;> simp [Sign.apply]
  rw [habs] at hn
  -- The significand has 53 bits.
  obtain ⟨m', e, hcanonical, hunits⟩ :
      ∃ m' e, Canonical m' e ∧ m' * 2 ^ (e + 1074).toNat = m * unitsPerOne := by
    rcases Nat.lt_or_eq_of_le hn with hlt | rfl
    · have hlog : m.log2 < 53 := (Nat.log2_lt hm).mpr hlt
      have hbits : (m * 2 ^ (52 - m.log2)).log2 = 52 := by
        rw [log2_mul_two_pow hm]
        omega
      have hne : m * 2 ^ (52 - m.log2) ≠ 0 := Nat.mul_ne_zero hm (Nat.two_pow_pos _).ne'
      obtain ⟨hlow, hhigh⟩ := (Nat.log2_eq_iff hne).mp hbits
      refine ⟨_, (m.log2 : Int) - 52, ⟨by omega, hhigh, by omega, by omega, .inr hlow⟩, ?_⟩
      rw [Nat.mul_assoc, ← Nat.pow_add, unitsPerOne]
      congr 2
      omega
    · refine ⟨2 ^ 52, 1, ⟨by omega, by omega, by omega, by omega, by omega⟩, ?_⟩
      rw [two_pow_mul_unitsPerOne, ← Nat.pow_add]
      congr 1
  have h := HasUnits.finite s hcanonical
  rw [hunits, apply_mul] at h
  exact ⟨_, h⟩

/-- Sums of whole numbers are exact as long as they stay within `2 ^ 53`. -/
theorem value?_add_of_int {a b : Int} (hx : value? x = some a) (hy : value? y = some b)
    (hsum : (a + b).natAbs ≤ 2 ^ 53) : value? (x + y) = some ((a + b : Int) : ℚ) := by
  obtain ⟨i, hi, ha⟩ := value?_eq_some_iff.mp hx
  obtain ⟨j, hj, hb⟩ := value?_eq_some_iff.mp hy
  obtain ⟨u, hu⟩ := exists_hasUnits_of_int hsum
  have hunits : i + j = (a + b) * unitsPerOne := by
    have hcast : ((i + j : Int) : ℚ) = ((a + b) * unitsPerOne : Int) := by
      push_cast
      rw [ha, hb]
      ring
    exact_mod_cast hcast
  refine value?_eq_some_iff.mpr ⟨(a + b) * unitsPerOne, ?_, by push_cast; rfl⟩
  exact (hunits ▸ hi.add hj).exact hu

end TurtleLogo.Decimal
