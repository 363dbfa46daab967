import TurtleLogo.Decimal.Numeral
import TurtleLogo.Proofs.Decimal.Value

set_option autoImplicit false

/-! # Equality of doubles

Doubles compare as equal if they are the same up to the sign of zero, and what is not a number is
equal to nothing (`beq_iff_same`). So equality is symmetric and transitive, and reflexive but for
what is not a number. No numeral stands for that, however large its exponent (`isNaN_toFloat`):
digits are multiplied with a power of ten or divided by one, and powers of ten are never zero. -/

open Float.Model Float.Model.UnpackedFloat

namespace TurtleLogo.Decimal

/-! ## Comparing -/

/-- The same double up to the sign of zero, and a number. -/
inductive Same : UnpackedFloat → UnpackedFloat → Prop
  | infinity (s : Sign) : Same (.infinity s) (.infinity s)
  | zero (s s' : Sign) : Same (.zero s) (.zero s')
  | finite (s : Sign) {m : Nat} (e : Int) (h : 0 < m) : Same (.finite s m e h) (.finite s m e h)

variable {u v w : UnpackedFloat}

theorem Same.symm (h : Same u v) : Same v u := by
  cases h with
  | infinity s => exact .infinity s
  | zero s s' => exact .zero s' s
  | finite s e hm => exact .finite s e hm

theorem Same.trans (h : Same u v) (h' : Same v w) : Same u w := by
  cases h with
  | infinity s => exact h'
  | zero s s' =>
    cases h' with
    | zero _ s'' => exact .zero s s''
  | finite s e hm => exact h'

theorem same_self_iff : Same u u ↔ u.isNaN = false := by
  cases u with
  | infinity s => exact ⟨fun _ => rfl, fun _ => .infinity s⟩
  | notANumber => exact ⟨nofun, fun h => by cases h⟩
  | zero s => exact ⟨fun _ => rfl, fun _ => .zero s s⟩
  | finite s m e hm => exact ⟨fun _ => rfl, fun _ => .finite s e hm⟩

theorem Same.compare_eq (h : Same u v) : UnpackedFloat.compare u v = some .eq := by
  cases h with
  | infinity s => cases s <;> rfl
  | zero s s' => rfl
  | finite s e hm =>
    rw [compare_finite, Int.compare_eq_eq.mpr rfl, Nat.compare_eq_eq.mpr rfl]
    cases s <;> rfl

theorem finite_of_compare_eq {s s' : Sign} {m m' : Nat} {e e' : Int} {h : 0 < m} {h' : 0 < m'}
    (heq : UnpackedFloat.compare (.finite s m e h) (.finite s' m' e' h') = some .eq) :
    s = s' ∧ e = e' ∧ m = m' := by
  rw [compare_finite, Option.some.injEq] at heq
  have hparts : s = s' ∧ (compare e e').then (compare m m') = .eq := by
    cases s with
    | negative =>
      cases s' with
      | negative => exact ⟨rfl, Ordering.swap_eq_eq.mp heq⟩
      | positive => cases heq
    | positive =>
      cases s' with
      | negative => cases heq
      | positive => exact ⟨rfl, heq⟩
  rwa [Ordering.then_eq_eq, Int.compare_eq_eq, Nat.compare_eq_eq] at hparts

theorem same_of_compare_eq (h : UnpackedFloat.compare u v = some .eq) : Same u v := by
  cases u with
  | infinity s =>
    cases v with
    | infinity s' =>
      obtain rfl : s = s' := by cases s <;> cases s' <;> cases h <;> rfl
      exact .infinity s
    | notANumber | zero | finite => cases s <;> cases h
  | notANumber => cases h
  | zero s =>
    cases v with
    | zero s' => exact .zero s s'
    | notANumber => cases h
    | infinity s' | finite s' => cases s' <;> cases h
  | finite s m e hm =>
    cases v with
    | finite s' m' e' hm' =>
      obtain ⟨rfl, rfl, rfl⟩ := finite_of_compare_eq h
      exact .finite s e hm
    | notANumber => cases h
    | infinity s' => cases s' <;> cases h
    | zero s' => cases s <;> cases h

variable {x y z : Float}

theorem beq_iff_same : (x == y) = true ↔ Same x.toModel.unpack y.toModel.unpack := by
  have hdefinition : (x == y)
      = (UnpackedFloat.compare x.toModel.unpack y.toModel.unpack == some .eq) := rfl
  rw [hdefinition, beq_iff_eq]
  exact ⟨same_of_compare_eq, Same.compare_eq⟩

theorem beq_comm (x y : Float) : (x == y) = (y == x) := by
  rw [Bool.eq_iff_iff, beq_iff_same, beq_iff_same]
  exact ⟨Same.symm, Same.symm⟩

theorem beq_trans (h : (x == y) = true) (h' : (y == z) = true) : (x == z) = true :=
  beq_iff_same.mpr ((beq_iff_same.mp h).trans (beq_iff_same.mp h'))

theorem beq_self_iff : (x == x) = true ↔ x.isNaN = false :=
  beq_iff_same.trans same_self_iff

/-! ## Infinite doubles -/

variable {negative : Bool}

theorem parts_ne_nan (h : x.isNaN = false) : parts x ≠ .nan := by
  intro hparts
  have hunpack : x.toModel.unpack.isNaN = false := h
  have hagree := agree_parts x
  rw [hparts] at hagree
  generalize x.toModel.unpack = u at *
  cases hagree
  cases hunpack

theorem isInf_iff : x.isInf = true ↔ ∃ negative, parts x = .infinite negative := by
  have hdefinition : x.isInf = x.toModel.unpack.isInf := rfl
  have hagree := agree_parts x
  rw [hdefinition]
  generalize parts x = parts, x.toModel.unpack = u at hagree ⊢
  cases hagree with
  | infinite negative => exact ⟨fun _ => ⟨negative, rfl⟩, fun _ => rfl⟩
  | nan | zero | finite =>
    constructor
    · intro h
      cases h
    · rintro ⟨_, h⟩
      cases h

/-- There is one infinite double of each sign. -/
theorem toBits_of_infinite (h : parts x = .infinite negative) :
    x.toBits.toNat = 2047 * 2 ^ 52 + if negative then 2 ^ 63 else 0 := by
  have hlt : x.toBits.toNat < 2 ^ 64 := x.toBits.toNat_lt
  simp only [parts, Nat.testBit_eq_decide_div_mod_eq] at h
  generalize x.toBits.toNat = bits at *
  split at h
  · split at h
    · have hsign := Parts.infinite.inj h
      have hpow : Nat.pow 2 52 = 2 ^ 52 ∧ Nat.pow 2 11 = 2 ^ 11 := ⟨rfl, rfl⟩
      simp only [hpow] at *
      by_cases hminus : bits / 2 ^ 63 % 2 = 1
      · simp only [hminus, decide_true] at hsign
        subst hsign
        simp only [if_true]
        omega
      · simp only [hminus, decide_false] at hsign
        subst hsign
        simp only [Bool.false_eq_true, if_false]
        omega
    · cases h
  · split at h <;> cases h

theorem eq_of_infinite (hx : parts x = .infinite negative) (hy : parts y = .infinite negative) :
    x = y := by
  have hbits : x.toBits = y.toBits :=
    UInt64.toNat_inj.mp ((toBits_of_infinite hx).trans (toBits_of_infinite hy).symm)
  obtain ⟨⟨bits, valid⟩⟩ := x
  obtain ⟨⟨bits', valid'⟩⟩ := y
  obtain rfl : bits = bits' := hbits
  rfl

theorem signOf_injective : Function.Injective signOf := by
  intro a b h
  cases a <;> cases b <;> simp [signOf] at h ⊢

theorem parts_of_beq (h : (x == y) = true) (hy : parts y = .infinite negative) :
    parts x = .infinite negative := by
  have hsame := beq_iff_same.mp h
  have hx := agree_parts x
  have hy' := agree_parts y
  rw [hy] at hy'
  generalize parts x = p, x.toModel.unpack = u, y.toModel.unpack = v at *
  cases hy'
  generalize hsign : signOf negative = s at hsame
  cases hsame
  cases hx with
  | infinite negative' => rw [signOf_injective hsign]

/-! ## What is not a number -/

theorem isNaN_unpack {b : BitVec Format.binary64.numBits} (h : unpackExponent b ≠ -1#11) :
    (unpack .binary64 b).isNaN = false := by
  by_cases hsmall : unpackExponent b = 0#11
  · by_cases hnone : unpackMantissa b = 0#52
    · rw [unpack_zero hsmall hnone]
      rfl
    · obtain ⟨hpos, heq⟩ := unpack_small hsmall hnone
      rw [heq]
      rfl
  · obtain ⟨hpos, heq⟩ := unpack_normal h hsmall
    rw [heq]
    rfl

/-- Packing gives a number for a number. -/
theorem isNaN_pack (h : u.isNaN = false) : (Float.Model.pack u).isNaN = false := by
  have hdefinition : (Float.Model.pack u).isNaN
      = (unpack .binary64 (UnpackedFloat.pack .binary64 u)).isNaN := rfl
  rw [hdefinition]
  cases u with
  | infinity s => cases s <;> rfl
  | notANumber => cases h
  | zero s => cases s <;> rfl
  | finite s m e hm =>
    rw [pack_finite]
    by_cases hlarge : 2 ^ 11 ≤ (e + 1075).toNat + 1
    · rw [if_pos hlarge,
        unpack_infinite unpackExponent_packComponents unpackMantissa_packComponents]
      rfl
    rw [if_neg hlarge]
    by_cases hnormal : m.log2 + 1 = 53
    · rw [if_pos hnormal]
      refine isNaN_unpack fun htop => hlarge ?_
      rw [unpackExponent_packComponents] at htop
      have hbits := congrArg BitVec.toNat htop
      simp at hbits
      omega
    · rw [if_neg hnormal]
      refine isNaN_unpack fun htop => ?_
      rw [unpackExponent_packComponents] at htop
      exact absurd htop (by decide)

theorem isNaN_roundWithAccuracy (s : Sign) (m : Nat) (e : Int) (a : Accuracy) :
    (roundWithAccuracy .binary64 s m e a).isNaN = false := by
  have hdefinition : roundWithAccuracy .binary64 s m e a
      = settle s (shiftToTargetExponent .binary64 m e a).1
          (shiftToTargetExponent .binary64 m e a).2 := rfl
  rw [hdefinition, settle]
  generalize shiftToTargetExponent .binary64 _ _ _ = shifted
  by_cases hzero : shifted.1.mantissa = 0
  · exact congrArg UnpackedFloat.isNaN (dif_pos hzero)
  · exact congrArg UnpackedFloat.isNaN (dif_neg hzero)

theorem isNaN_mul_finite (h : u.isNaN = false) (s : Sign) {m : Nat} (e : Int) (hm : 0 < m) :
    (UnpackedFloat.mul .binary64 u (.finite s m e hm)).isNaN = false := by
  cases u with
  | infinity s' => rfl
  | notANumber => cases h
  | zero s' => rfl
  | finite s' m' e' hm' => exact isNaN_roundWithAccuracy ..

theorem isNaN_div_finite (h : u.isNaN = false) (s : Sign) {m : Nat} (e : Int) (hm : 0 < m) :
    (UnpackedFloat.div .binary64 u (.finite s m e hm)).isNaN = false := by
  cases u with
  | infinity s' => rfl
  | notANumber => cases h
  | zero s' => rfl
  | finite s' m' e' hm' => exact isNaN_roundWithAccuracy ..

theorem isNaN_normalize (n e : Int) (s : Sign) : (normalize .binary64 n e s).isNaN = false := by
  by_cases hn : n = 0
  · subst hn
    rfl
  · obtain ⟨s', m, hm, rfl⟩ := exists_apply n hn
    rw [normalize_apply s' s hm]
    exact isNaN_roundWithAccuracy ..

/-! ## Numerals -/

/-- Neither zero nor infinite. -/
def isProper : UnpackedFloat → Bool
  | .finite .. => true
  | _ => false

theorem exists_finite_of_isProper (h : isProper u = true) : ∃ s m e hm, u = .finite s m e hm := by
  cases u with
  | finite s m e hm => exact ⟨s, m, e, hm, rfl⟩
  | infinity | notANumber | zero => cases h

theorem powersOfTen_isProper :
    Float.exactlyRepresentablePowersOfTen.all (fun x => isProper x.toModel.unpack) = true := by
  decide +kernel

theorem isNaN_mul (hx : x.isNaN = false) (hy : isProper y.toModel.unpack = true) :
    (x * y).isNaN = false := by
  obtain ⟨s, m, e, hm, heq⟩ := exists_finite_of_isProper hy
  have hproduct := isNaN_mul_finite hx s e hm
  rw [← heq] at hproduct
  exact isNaN_pack hproduct

theorem isNaN_div (hx : x.isNaN = false) (hy : isProper y.toModel.unpack = true) :
    (x / y).isNaN = false := by
  obtain ⟨s, m, e, hm, heq⟩ := exists_finite_of_isProper hy
  have hquotient := isNaN_div_finite hx s e hm
  rw [← heq] at hquotient
  exact isNaN_pack hquotient

theorem isNaN_neg (h : x.isNaN = false) : (-x).isNaN = false := by
  have hx : x.toModel.unpack.isNaN = false := h
  refine isNaN_pack ?_
  generalize x.toModel.unpack = u at hx
  cases u with
  | notANumber => cases hx
  | infinity | zero | finite => rfl

theorem isNaN_unpackedScientific (m : Nat) (e : Int) :
    (UnpackedFloat.ofScientific .binary64 m e).isNaN = false := by
  by_cases hm : m = 0
  · exact congrArg UnpackedFloat.isNaN (dif_pos hm)
  have hpos : 0 < m := Nat.pos_of_ne_zero hm
  have hdefinition : UnpackedFloat.ofScientific .binary64 m e
      = if e > 2 ^ 11 then .infinity .positive
        else if e < -((2 ^ 11 : Int) + m.log2) then .zero .positive
        else if 0 ≤ e then
          UnpackedFloat.mul .binary64
            (.finite .positive (m <<< Format.binary64.mantissaBits) (-Format.binary64.mantissaBits)
              (by simpa [Nat.pos_iff_ne_zero]))
            (.finite .positive (10 ^ e.toNat) 0 (Nat.pow_pos (by decide)))
        else
          UnpackedFloat.div .binary64 (.finite .positive m 0 hpos)
            (.finite .positive (10 ^ (-e).toNat) 0 (Nat.pow_pos (by decide))) :=
    dif_neg hm
  rw [hdefinition]
  by_cases hlarge : e > 2 ^ 11
  · rw [if_pos hlarge]
    rfl
  rw [if_neg hlarge]
  by_cases hsmall : e < -((2 ^ 11 : Int) + m.log2)
  · rw [if_pos hsmall]
    rfl
  rw [if_neg hsmall]
  by_cases hwhole : 0 ≤ e
  · rw [if_pos hwhole]
    exact isNaN_mul_finite rfl ..
  · rw [if_neg hwhole]
    exact isNaN_div_finite rfl ..

/-- A decimal is never rounded to what is not a number. -/
theorem isNaN_ofScientific (m : Nat) (negative : Bool) (e : Nat) :
    (Float.ofScientific m negative e).isNaN = false := by
  by_cases hsmall : m < 2 ^ 53 ∧ e ≤ 22
  · -- Both the digits and the power of ten are doubles.
    have hdigits : m.toUInt64.toFloat.isNaN = false := isNaN_pack (isNaN_normalize _ 0 _)
    have hindex : e < Float.exactlyRepresentablePowersOfTen.size := Nat.lt_succ_of_le hsmall.2
    have hpower : isProper (Float.exactlyRepresentablePowersOfTen[e]).toModel.unpack = true :=
      Array.all_eq_true_iff_forall_mem.mp powersOfTen_isProper _ (Array.getElem_mem hindex)
    have hdefinition : Float.ofScientific m negative e
        = if negative then m.toUInt64.toFloat / Float.exactlyRepresentablePowersOfTen[e]
          else m.toUInt64.toFloat * Float.exactlyRepresentablePowersOfTen[e] :=
      dif_pos hsmall
    rw [hdefinition]
    cases negative with
    | true => exact isNaN_div hdigits hpower
    | false => exact isNaN_mul hdigits hpower
  · have hdefinition : Float.ofScientific m negative e
        = .ofModel (.ofScientific m (if negative then Int.negOfNat e else Int.ofNat e)) :=
      dif_neg hsmall
    rw [hdefinition]
    exact isNaN_pack (isNaN_unpackedScientific m _)

theorem isNaN_ofDecimal (m : Nat) (e : Int) : (ofDecimal m e).isNaN = false := by
  unfold ofDecimal
  dsimp only
  split
  · exact isNaN_ofScientific 0 true 1
  · split
    · decide +kernel
    · exact isNaN_ofScientific ..

theorem isNaN_toFloat (n : Numeral) : n.toFloat.isNaN = false := by
  unfold Numeral.toFloat
  dsimp only
  split
  · exact isNaN_neg (isNaN_ofDecimal ..)
  · exact isNaN_ofDecimal ..

end TurtleLogo.Decimal
