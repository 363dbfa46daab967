import TurtleLogo.Decimal.Binary

set_option autoImplicit false

/-! # The parts of a double and its order

`parts` reads sign, exponent and fraction off the bits as natural numbers, while doubles are
compared through bit vectors cut out of the same bits. Here the two views are brought together, as
far as counts need it: a double that is not below zero and has a minus sign is zero
(`significand_eq_zero_of_nonneg`), so a whole double that is not below zero counts as its whole
part, up to the largest count (`toCount_of_isWhole`). -/

open Float.Model

namespace TurtleLogo.Decimal

/-! ## The fields of a double -/

section Fields

variable (x : Float)

/-- The sign of a double, as comparisons take it off the bits. -/
abbrev signField : BitVec 1 :=
  @UnpackedFloat.unpackSign Format.binary64 x.toModel.toBits.toBitVec

/-- The biased exponent of a double, as comparisons take it off the bits. -/
abbrev exponentField : BitVec 11 :=
  @UnpackedFloat.unpackExponent Format.binary64 x.toModel.toBits.toBitVec

/-- The fraction of a double, as comparisons take it off the bits. -/
abbrev fractionField : BitVec 52 :=
  @UnpackedFloat.unpackMantissa Format.binary64 x.toModel.toBits.toBitVec

theorem toNat_signField : (signField x).toNat = (x.toBits.toNat.testBit 63).toNat := by
  refine (BitVec.toNat_cast _ _).trans ((BitVec.extractLsb_toNat _ _ _).trans ?_)
  rw [Nat.toNat_testBit, Nat.shiftRight_eq_div_pow]
  rfl

theorem toNat_exponentField :
    (exponentField x).toNat = x.toBits.toNat / Nat.pow 2 52 % Nat.pow 2 11 := by
  refine (BitVec.toNat_cast _ _).trans ((BitVec.extractLsb_toNat _ _ _).trans ?_)
  rw [Nat.shiftRight_eq_div_pow]
  rfl

theorem toNat_fractionField : (fractionField x).toNat = x.toBits.toNat % Nat.pow 2 52 := by
  refine (BitVec.toNat_cast _ _).trans ((BitVec.extractLsb_toNat _ _ _).trans ?_)
  rw [Nat.shiftRight_zero]
  rfl

end Fields

/-! ## Below zero -/

variable {x : Float} {negative : Bool} {m : Nat} {q : Int}

/-- What the fields of a finite double are. -/
theorem fields_of_finite (h : parts x = .finite negative m q) :
    x.toBits.toNat.testBit 63 = negative ∧ (exponentField x).toNat ≠ 2047 ∧
    ((exponentField x).toNat = 0 → (fractionField x).toNat = m) := by
  simp only [parts] at h
  rw [← toNat_exponentField, ← toNat_fractionField] at h
  split at h
  · split at h <;> simp at h
  · next hfinite =>
    split at h
    · next hsmall =>
      simp only [Parts.finite.injEq] at h
      exact ⟨h.1, hfinite, fun _ => h.2.1⟩
    · next hnormal =>
      simp only [Parts.finite.injEq] at h
      exact ⟨h.1, hfinite, fun hsmall => absurd hsmall hnormal⟩

/-- A finite double with a minus sign is compared as a negative number, unless it is zero. -/
theorem unpack_of_negative (h : parts x = .finite true m q) (hm : m ≠ 0) :
    ∃ m' e hpos, x.toModel.unpack = .finite .negative m' e hpos := by
  obtain ⟨hminus, hfinite, hsmall⟩ := fields_of_finite h
  have hsign : UnpackedFloat.Sign.ofBitVec (signField x) = .negative := by
    refine if_neg fun hzero => ?_
    have hbit := toNat_signField x
    rw [hzero, hminus] at hbit
    simp at hbit
  have hexponent : exponentField x ≠ -1#11 := fun htop => hfinite (by rw [htop]; rfl)
  by_cases hzero : exponentField x = 0#11
  · have hfraction : fractionField x ≠ 0#52 := by
      intro hnone
      exact hm (by rw [← hsmall (by rw [hzero]; rfl), hnone]; rfl)
    exact ⟨_, _, _, (if_neg hexponent).trans ((if_pos hzero).trans
      ((dif_neg hfraction).trans (by rw [hsign])))⟩
  · exact ⟨_, _, _, (if_neg hexponent).trans ((if_neg hzero).trans (by rw [hsign]))⟩

/-- With a minus sign, only zero is not below zero. -/
theorem significand_eq_zero_of_nonneg (hx : x ≥ 0.0) (h : parts x = .finite true m q) : m = 0 := by
  refine Decidable.byContradiction fun hm => ?_
  obtain ⟨m', e, hpos, hunpack⟩ := unpack_of_negative h hm
  have hle : UnpackedFloat.le (0.0 : Float).toModel.unpack x.toModel.unpack = true :=
    of_decide_eq_true hx
  rw [hunpack] at hle
  exact Bool.false_ne_true hle

/-- A whole double that is not below zero counts as its whole part, up to the largest count. -/
theorem toCount_of_isWhole (hwhole : isWhole x = true) (hx : x ≥ 0.0) :
    toCount x = min (wholePart x) maxCount := by
  cases hparts : parts x with
  | nan => simp [isWhole, hparts] at hwhole
  | infinite negative => simp [isWhole, hparts] at hwhole
  | finite negative m q =>
    cases negative with
    | false => simp only [toCount, hparts]
    | true =>
      have hm := significand_eq_zero_of_nonneg hx hparts
      simp [toCount, wholePart, hparts, hm]

end TurtleLogo.Decimal
