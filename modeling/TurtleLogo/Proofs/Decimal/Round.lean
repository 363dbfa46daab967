import Mathlib.Data.Rat.Floor
import TurtleLogo.Proofs.Decimal.Binary

set_option autoImplicit false

/-! # Sums and differences of doubles

Every finite double is a whole multiple of the least positive one (`HasUnits`), so sums and
differences are those of integers, rounded: `HasUnits.add` and `HasUnits.sub`. Rounding keeps the
sign and gives no zero (`Nearest.hasSign`), and it keeps what is a double already
(`Nearest.exact`). -/

open Float.Model Float.Model.UnpackedFloat

namespace TurtleLogo.Decimal

/-! ## Shifts -/

theorem log2_mul_two_pow {m : Nat} (hm : m ≠ 0) (k : Nat) : (m * 2 ^ k).log2 = m.log2 + k := by
  induction k with
  | zero => simp
  | succ k ih =>
    have hne : m * 2 ^ k ≠ 0 := Nat.mul_ne_zero hm (Nat.two_pow_pos k).ne'
    have hdouble : m * 2 ^ (k + 1) = 2 * (m * 2 ^ k) := by ring
    rw [hdouble, Nat.log2_two_mul hne, ih, Nat.add_assoc]

/-- An exact significand shifted to the right, with a note of the bits shifted out. -/
def shifted (m n : Nat) : ExtendedMantissa :=
  n.repeat ExtendedMantissa.shiftRightOne ⟨m, false, false⟩

theorem mantissa_shifted (m n : Nat) : (shifted m n).mantissa = m / 2 ^ n := by
  induction n with
  | zero => simp [shifted, Nat.repeat]
  | succ n ih =>
    have hstep : (shifted m (n + 1)).mantissa = (shifted m n).mantissa / 2 := rfl
    rw [hstep, ih, Nat.div_div_eq_div_mul, Nat.pow_succ]

theorem repeat_succ {α : Type} (f : α → α) (n : Nat) (a : α) :
    Nat.repeat f (n + 1) a = Nat.repeat f n (f a) := by
  induction n with
  | zero => rfl
  | succ n ih => exact congrArg f ih

theorem shifted_double (m n : Nat) : shifted (m * 2) (n + 1) = shifted m n := by
  have hone : ExtendedMantissa.shiftRightOne ⟨m * 2, false, false⟩ = ⟨m, false, false⟩ := by
    simp [ExtendedMantissa.shiftRightOne]
  rw [shifted, repeat_succ, hone, shifted]

/-- Zeros that are shifted out leave no trace. -/
theorem shifted_mul_two_pow (m n k : Nat) : shifted (m * 2 ^ k) (n + k) = shifted m n := by
  induction k with
  | zero => simp
  | succ k ih => rw [Nat.pow_succ, ← Nat.mul_assoc, ← Nat.add_assoc, shifted_double, ih]

/-- What is left of a number after all but its first 53 bits are shifted out. -/
theorem leading_bounds {m : Nat} (hm : m ≠ 0) :
    0 < m / 2 ^ (m.log2 - 52) ∧ m / 2 ^ (m.log2 - 52) < 2 ^ 53 ∧
      (m.log2 - 52 = 0 ∨ 2 ^ 52 ≤ m / 2 ^ (m.log2 - 52)) := by
  have hlow := Nat.log2_self_le hm
  refine ⟨?_, ?_, ?_⟩
  · exact Nat.div_pos ((Nat.pow_le_pow_right Nat.two_pos (Nat.sub_le _ _)).trans hlow)
      (Nat.two_pow_pos _)
  · rw [Nat.div_lt_iff_lt_mul (Nat.two_pow_pos _), ← Nat.pow_add]
    exact Nat.lt_log2_self.trans_le (Nat.pow_le_pow_right Nat.two_pos (by omega))
  · rcases Nat.lt_or_ge m.log2 52 with hlt | hge
    · exact .inl (by omega)
    · refine .inr ((Nat.le_div_iff_mul_le (Nat.two_pow_pos _)).mpr ?_)
      rwa [← Nat.pow_add, Nat.add_sub_cancel' hge]

/-! ## Rounding -/

/-- The float that a shifted significand is rounded to. -/
def settle (s : Sign) (em : ExtendedMantissa) (e : Int) : UnpackedFloat :=
  let (em', e') := shiftToTargetExponent .binary64 em.roundedMantissa e .exact
  if h : em'.mantissa = 0 then .zero s else .finite s em'.mantissa e' (Nat.pos_of_ne_zero h)

/-- Above the least exponent, all but the first 53 bits are shifted out. -/
theorem shiftToTargetExponent_eq {m : Nat} {e : Int} (he : -1074 ≤ e) :
    shiftToTargetExponent .binary64 m e .exact
      = (shifted m (m.log2 - 52), e + (m.log2 - 52 : Nat)) := by
  have hshift : (Format.binary64.targetExponent (totalExponent m e) - e).toNat = m.log2 - 52 := by
    have htarget : Format.binary64.targetExponent (totalExponent m e)
        = max ((m.log2 : Int) + 1 + e - 53) (-1074) := rfl
    omega
  have hdefinition : shiftToTargetExponent .binary64 m e .exact
      = (shifted m (Format.binary64.targetExponent (totalExponent m e) - e).toNat,
        e + (Format.binary64.targetExponent (totalExponent m e) - e).toNat) := rfl
  rw [hdefinition, hshift]

theorem roundWithAccuracy_eq (s : Sign) {m : Nat} {e : Int} (he : -1074 ≤ e) :
    roundWithAccuracy .binary64 s m e .exact
      = settle s (shifted m (m.log2 - 52)) (e + (m.log2 - 52 : Nat)) := by
  have hdefinition : roundWithAccuracy .binary64 s m e .exact
      = settle s (shiftToTargetExponent .binary64 m e .exact).1
          (shiftToTargetExponent .binary64 m e .exact).2 := rfl
  rw [hdefinition, shiftToTargetExponent_eq he]

/-- Rounding looks at the number only, and not at how it is split into significand and exponent. -/
theorem round_eq_roundWithAccuracy (s : Sign) {m : Nat} {e : Int} (hm : m ≠ 0) (he : -1074 ≤ e) :
    round .binary64 s m e
      = roundWithAccuracy .binary64 s (m * 2 ^ (e + 1074).toNat) (-1074) .exact := by
  obtain ⟨k, hk⟩ : ∃ k, k = (e - Format.binary64.targetExponent (totalExponent m e)).toNat :=
    ⟨_, rfl⟩
  have htarget : Format.binary64.targetExponent (totalExponent m e)
      = max ((m.log2 : Int) + 1 + e - 53) (-1074) := rfl
  have hdefinition : round .binary64 s m e
      = roundWithAccuracy .binary64 s
          (m <<< (e - Format.binary64.targetExponent (totalExponent m e)).toNat)
          (e - (e - Format.binary64.targetExponent (totalExponent m e)).toNat) .exact := rfl
  have hlog := log2_mul_two_pow hm k
  have hne : m * 2 ^ k ≠ 0 := Nat.mul_ne_zero hm (Nat.two_pow_pos k).ne'
  obtain ⟨j, hj⟩ : ∃ j, (e + 1074).toNat = k + j := ⟨(e + 1074).toNat - k, by omega⟩
  rw [hdefinition, ← hk, Nat.shiftLeft_eq, roundWithAccuracy_eq s (by omega),
    roundWithAccuracy_eq s (Int.le_refl _), hj, Nat.pow_add, ← Nat.mul_assoc,
    log2_mul_two_pow hne j]
  -- If there is anything left to scale, the significand has 53 bits already.
  have hshift : (m * 2 ^ k).log2 + j - 52 = (m * 2 ^ k).log2 - 52 + j := by omega
  rw [hshift, shifted_mul_two_pow]
  congr 1
  omega

theorem le_roundedMantissa (em : ExtendedMantissa) : em.mantissa ≤ em.roundedMantissa := by
  obtain ⟨m, b, b'⟩ := em
  cases b <;> cases b' <;>
    simp [ExtendedMantissa.roundedMantissa, ExtendedMantissa.accuracy, Accuracy.roundToNearestEven]

/-- A number other than zero is rounded to one that is not zero, with as many bits as there are
room for. -/
theorem exists_roundWithAccuracy (s : Sign) {m : Nat} (hm : m ≠ 0) :
    ∃ m' e' h, roundWithAccuracy .binary64 s m (-1074) .exact = .finite s m' e' h ∧
      m' < 2 ^ 53 ∧ -1074 ≤ e' ∧ (e' = -1074 ∨ 2 ^ 52 ≤ m') := by
  obtain ⟨hpos, -, hleading⟩ := leading_bounds hm
  have hle := le_roundedMantissa (shifted m (m.log2 - 52))
  rw [mantissa_shifted] at hle
  obtain ⟨hpos', hlt', hleading'⟩ := leading_bounds (hpos.trans_le hle).ne'
  rw [← mantissa_shifted] at hpos' hlt' hleading'
  rw [roundWithAccuracy_eq s (Int.le_refl _), settle, shiftToTargetExponent_eq (by omega)]
  refine ⟨_, _, hpos', dif_neg hpos'.ne', hlt', by omega, ?_⟩
  rcases hleading' with hkept | hfull
  · -- Nothing is shifted out the second time, so the bits are those of the first.
    rw [hkept, mantissa_shifted, Nat.pow_zero, Nat.div_one]
    omega
  · exact .inr hfull

theorem finite_congr {s : Sign} {m m' : Nat} {e e' : Int} (h : 0 < m) (h' : 0 < m') (hm : m = m')
    (he : e = e') : UnpackedFloat.finite s m e h = .finite s m' e' h' := by
  subst hm he
  rfl

/-- A number of no more than 53 significant bits is kept. -/
theorem roundWithAccuracy_exact (s : Sign) {m k : Nat} (hm : 0 < m) (hlt : m < 2 ^ 53)
    (hk : k = 0 ∨ 2 ^ 52 ≤ m) :
    roundWithAccuracy .binary64 s (m * 2 ^ k) (-1074) .exact
      = .finite s m ((k : Int) - 1074) hm := by
  have hlog : m.log2 < 53 := (Nat.log2_lt hm.ne').mpr hlt
  have hshift : (m * 2 ^ k).log2 - 52 = k := by
    rw [log2_mul_two_pow hm.ne']
    rcases hk with rfl | hle
    · omega
    · have := (Nat.le_log2 hm.ne').mpr hle
      omega
  have hbits : shifted (m * 2 ^ k) k = ⟨m, false, false⟩ := by
    have hzeros := shifted_mul_two_pow m 0 k
    rwa [Nat.zero_add] at hzeros
  have hrounded : (⟨m, false, false⟩ : ExtendedMantissa).roundedMantissa = m := rfl
  rw [roundWithAccuracy_eq s (Int.le_refl _), hshift, hbits, settle, hrounded,
    shiftToTargetExponent_eq (by omega), show m.log2 - 52 = 0 by omega]
  exact (dif_neg hm.ne').trans (finite_congr _ _ rfl (by omega))

/-! ## Packing -/

section Unpack

variable {b : BitVec Format.binary64.numBits}

theorem unpack_infinite (he : unpackExponent b = -1#11) (hm : unpackMantissa b = 0#52) :
    unpack .binary64 b = .infinity (Sign.ofBitVec (unpackSign b)) :=
  (if_pos he).trans (if_pos hm)

theorem unpack_zero (he : unpackExponent b = 0#11) (hm : unpackMantissa b = 0#52) :
    unpack .binary64 b = .zero (Sign.ofBitVec (unpackSign b)) := by
  have hfinite : unpackExponent b ≠ -1#11 := by rw [he]; decide
  exact (if_neg hfinite).trans ((if_pos he).trans (dif_pos hm))

theorem unpack_small (he : unpackExponent b = 0#11) (hm : unpackMantissa b ≠ 0#52) :
    ∃ h, unpack .binary64 b
      = .finite (Sign.ofBitVec (unpackSign b)) (unpackMantissa b).toNat (-1074) h := by
  have hfinite : unpackExponent b ≠ -1#11 := by rw [he]; decide
  have hpos : 0 < (unpackMantissa b).toNat :=
    Nat.pos_of_ne_zero fun h => hm (BitVec.eq_of_toNat_eq h)
  refine ⟨hpos, (if_neg hfinite).trans ((if_pos he).trans ((dif_neg hm).trans ?_))⟩
  refine finite_congr _ _ rfl ?_
  rw [he]
  rfl

theorem unpack_normal (he : unpackExponent b ≠ -1#11) (hne : unpackExponent b ≠ 0#11) :
    ∃ h, unpack .binary64 b
      = .finite (Sign.ofBitVec (unpackSign b)) (2 ^ 52 + (unpackMantissa b).toNat)
        ((unpackExponent b).toNat - 1075) h := by
  have hlead : (1#1 ++ unpackMantissa b).toNat = 2 ^ 52 + (unpackMantissa b).toNat := by
    rw [BitVec.toNat_append, ← Nat.shiftLeft_add_eq_or_of_lt (unpackMantissa b).isLt]
    rfl
  exact ⟨by omega, (if_neg he).trans ((if_neg hne).trans (finite_congr _ _ hlead rfl))⟩

end Unpack

/-- Significand and exponent of a double that is neither zero nor infinite. -/
structure Canonical (m : Nat) (e : Int) : Prop where
  pos : 0 < m
  lt : m < 2 ^ 53
  least : -1074 ≤ e
  most : e ≤ 971
  leading : e = -1074 ∨ 2 ^ 52 ≤ m

theorem canonical_of_unpack {b : BitVec Format.binary64.numBits} {s : Sign} {m : Nat} {e : Int}
    {h : 0 < m} (hunpack : unpack .binary64 b = .finite s m e h) : Canonical m e := by
  have hfraction : (unpackMantissa b).toNat < 2 ^ 52 := (unpackMantissa b).isLt
  have hexponent : (unpackExponent b).toNat < 2 ^ 11 := (unpackExponent b).isLt
  by_cases htop : unpackExponent b = -1#11
  · by_cases hm : unpackMantissa b = 0#52
    · rw [unpack_infinite htop hm] at hunpack
      cases hunpack
    · have hnan : unpack .binary64 b = .notANumber := (if_pos htop).trans (if_neg hm)
      rw [hnan] at hunpack
      cases hunpack
  by_cases hzero : unpackExponent b = 0#11
  · by_cases hm : unpackMantissa b = 0#52
    · rw [unpack_zero hzero hm] at hunpack
      cases hunpack
    · obtain ⟨_, heq⟩ := unpack_small hzero hm
      rw [heq] at hunpack
      cases hunpack
      exact ⟨h, by omega, by omega, by omega, .inl rfl⟩
  · obtain ⟨_, heq⟩ := unpack_normal htop hzero
    rw [heq] at hunpack
    cases hunpack
    have hone : (unpackExponent b).toNat ≠ 0 := fun h => hzero (BitVec.eq_of_toNat_eq h)
    have hmost : (unpackExponent b).toNat ≠ 2047 := fun h => htop (BitVec.eq_of_toNat_eq h)
    exact ⟨h, by omega, by omega, by omega, .inr (by omega)⟩

theorem pack_finite (s : Sign) {m : Nat} (e : Int) (h : 0 < m) :
    UnpackedFloat.pack .binary64 (.finite s m e h)
      = if 2 ^ 11 ≤ (e + 1075).toNat + 1 then packComponents .binary64 s (-1#11) 0#52
        else if m.log2 + 1 = 53 then
          packComponents .binary64 s (BitVec.ofNat 11 (e + 1075).toNat) (BitVec.ofNat 52 m)
        else packComponents .binary64 s 0#11 (BitVec.ofNat 52 m) := by
  have hbias : e + 1075 = e + (1023 : Nat) + (52 : Nat) := by omega
  rw [hbias]
  rfl

theorem ofBitVec_unpackSign (s : Sign) (e : BitVec 11) (m : BitVec 52) :
    Sign.ofBitVec (unpackSign (packComponents .binary64 s e m)) = s := by
  have hsign : unpackSign (packComponents .binary64 s e m)
      = (s.toBitVec ++ e ++ m).extractLsb' 63 1 := rfl
  rw [hsign, BitVec.extractLsb'_append_eq_of_le (by decide),
    BitVec.extractLsb'_append_eq_of_le (by decide)]
  cases s <;> rfl

theorem unpack_packComponents_small (s : Sign) {m : BitVec 52} (hm : m ≠ 0#52) :
    ∃ h, unpack .binary64 (packComponents .binary64 s 0#11 m) = .finite s m.toNat (-1074) h := by
  have h := unpack_small (b := packComponents .binary64 s 0#11 m) unpackExponent_packComponents
    (by rwa [unpackMantissa_packComponents])
  rwa [unpackMantissa_packComponents, ofBitVec_unpackSign] at h

theorem unpack_packComponents_normal (s : Sign) {e : BitVec 11} (m : BitVec 52) (he : e ≠ -1#11)
    (hne : e ≠ 0#11) :
    ∃ h, unpack .binary64 (packComponents .binary64 s e m)
      = .finite s (2 ^ 52 + m.toNat) (e.toNat - 1075) h := by
  have h := unpack_normal (b := packComponents .binary64 s e m)
    (by rwa [unpackExponent_packComponents]) (by rwa [unpackExponent_packComponents])
  rwa [unpackExponent_packComponents, unpackMantissa_packComponents, ofBitVec_unpackSign] at h

/-- A double is unpacked to what was packed. -/
theorem unpack_pack (s : Sign) {m : Nat} {e : Int} (h : Canonical m e) :
    unpack .binary64 (UnpackedFloat.pack .binary64 (.finite s m e h.pos))
      = .finite s m e h.pos := by
  obtain ⟨hpos, hlt, hleast, hmost, hleading⟩ := h
  rw [pack_finite, if_neg (by omega)]
  by_cases hlog : m.log2 + 1 = 53
  · rw [if_pos hlog]
    have hbits : 2 ^ 52 ≤ m := (Nat.le_log2 hpos.ne').mp (by omega)
    have hexponent : (BitVec.ofNat 11 (e + 1075).toNat).toNat = (e + 1075).toNat := by
      rw [BitVec.toNat_ofNat]
      omega
    obtain ⟨_, heq⟩ := unpack_packComponents_normal s (BitVec.ofNat 52 m)
      (e := BitVec.ofNat 11 (e + 1075).toNat)
      (fun h => by rw [h] at hexponent; simp at hexponent; omega)
      (fun h => by rw [h] at hexponent; simp at hexponent; omega)
    rw [heq]
    refine finite_congr _ _ ?_ ?_
    · rw [BitVec.toNat_ofNat]
      omega
    · omega
  · rw [if_neg hlog]
    have hsmall : m < 2 ^ 52 := by
      rw [← Nat.log2_lt hpos.ne']
      have := (Nat.log2_lt hpos.ne').mpr hlt
      omega
    have hfraction : (BitVec.ofNat 52 m).toNat = m := by
      rw [BitVec.toNat_ofNat, Nat.mod_eq_of_lt hsmall]
    obtain ⟨_, heq⟩ := unpack_packComponents_small s (m := BitVec.ofNat 52 m)
      (fun h => by rw [h] at hfraction; exact hpos.ne hfraction)
    rw [heq]
    refine finite_congr _ _ hfraction ?_
    omega

/-! ## Units -/

/-- The float is a finite double, so many times the least positive one. -/
inductive HasUnits : UnpackedFloat → Int → Prop
  | zero (s : Sign) : HasUnits (.zero s) 0
  | finite (s : Sign) {m : Nat} {e : Int} (h : Canonical m e) :
    HasUnits (.finite s m e h.pos) (s.apply (m * 2 ^ (e + 1074).toNat : Nat))

/-- The float nearest to so many times the least positive double. -/
def ofUnits (n : Int) : UnpackedFloat :=
  normalize .binary64 n (-1074) .positive

theorem normalize_apply (s z : Sign) {m : Nat} (hm : m ≠ 0) (e : Int) :
    normalize .binary64 (s.apply m) e z = round .binary64 s m e := by
  have hdefinition : normalize .binary64 (s.apply m) e z
      = match compare (s.apply m) 0 with
        | .lt => round .binary64 .negative (-s.apply m).toNat e
        | .eq => .zero z
        | .gt => round .binary64 .positive (s.apply m).toNat e := rfl
  cases s with
  | negative =>
    have hcompare : compare (Sign.negative.apply m) 0 = .lt :=
      Int.compare_eq_lt.mpr (show -(m : Int) < 0 by omega)
    rw [hdefinition, hcompare]
    have habs : (-Sign.negative.apply m).toNat = m := by
      rw [show Sign.negative.apply m = -(m : Int) from rfl, Int.neg_neg, Int.toNat_natCast]
    rw [habs]
  | positive =>
    have hcompare : compare (Sign.positive.apply m) 0 = .gt :=
      Int.compare_eq_gt.mpr (show 0 < (m : Int) by omega)
    rw [hdefinition, hcompare]
    rfl

theorem ofUnits_apply (s : Sign) {m : Nat} (hm : m ≠ 0) :
    ofUnits (s.apply m) = roundWithAccuracy .binary64 s m (-1074) .exact := by
  rw [ofUnits, normalize_apply s _ hm, round_eq_roundWithAccuracy s hm (Int.le_refl _)]
  simp

theorem apply_mul (s : Sign) (m n : Nat) : s.apply (m * n : Nat) = s.apply m * n := by
  cases s with
  | negative => simp [Sign.apply]
  | positive => simp [Sign.apply]

theorem apply_ne_zero (s : Sign) {m : Nat} (hm : m ≠ 0) : s.apply m ≠ 0 := by
  cases s with
  | negative => simpa [Sign.apply] using hm
  | positive => simpa [Sign.apply] using hm

theorem exists_apply (n : Int) (hn : n ≠ 0) : ∃ (s : Sign) (m : Nat), m ≠ 0 ∧ n = s.apply m := by
  rcases Int.lt_or_gt_of_ne hn with h | h
  · exact ⟨.negative, n.natAbs, by omega, show n = -(n.natAbs : Int) by omega⟩
  · exact ⟨.positive, n.natAbs, by omega, show n = (n.natAbs : Int) by omega⟩

theorem normalize_eq_ofUnits (n : Int) {e : Int} (he : -1074 ≤ e) :
    normalize .binary64 n e .positive = ofUnits (n * (2 ^ (e + 1074).toNat : Nat)) := by
  by_cases hn : n = 0
  · rw [hn, Int.zero_mul]
    rfl
  · obtain ⟨s, m, hm, rfl⟩ := exists_apply n hn
    rw [← apply_mul, normalize_apply s _ hm, round_eq_roundWithAccuracy s hm he,
      ofUnits_apply s (Nat.mul_ne_zero hm (Nat.two_pow_pos _).ne')]

/-- A double is the float nearest to itself. -/
theorem ofUnits_of_canonical (s : Sign) {m : Nat} {e : Int} (h : Canonical m e) :
    ofUnits (s.apply (m * 2 ^ (e + 1074).toNat : Nat)) = .finite s m e h.pos := by
  obtain ⟨hpos, hlt, hleast, -, hleading⟩ := h
  rw [ofUnits_apply s (Nat.mul_ne_zero hpos.ne' (Nat.two_pow_pos _).ne'),
    roundWithAccuracy_exact s hpos hlt (hleading.imp_left (by omega))]
  exact finite_congr _ _ rfl (by omega)

/-! ## Sums and differences -/

/-- The float is the one nearest to so many units; zero may have either sign. -/
def Nearest (u : UnpackedFloat) (n : Int) : Prop :=
  u = ofUnits n ∨ n = 0 ∧ ∃ s, u = .zero s

/-- Significands brought to the same exponent add up as the units do. -/
theorem units_align (s : Sign) (m : Nat) {e e' : Int} (he : -1074 ≤ e') (hle : e' ≤ e) :
    s.apply (m * 2 ^ (e + 1074).toNat : Nat)
      = s.apply (m <<< (e - e').toNat : Nat) * (2 ^ (e' + 1074).toNat : Nat) := by
  have hsum : (e + 1074).toNat = (e - e').toNat + (e' + 1074).toNat := by omega
  rw [Nat.shiftLeft_eq, ← apply_mul, Nat.mul_assoc, ← Nat.pow_add, hsum]

variable {u v : UnpackedFloat} {i j : Int}

/-- A sum is the exact sum of the units, rounded. -/
theorem HasUnits.add (hu : HasUnits u i) (hv : HasUnits v j) :
    Nearest (UnpackedFloat.add .binary64 u v) (i + j) := by
  cases hu with
  | zero s =>
    cases hv with
    | zero s' =>
      refine .inr ⟨rfl, ?_⟩
      cases s <;> cases s' <;> exact ⟨_, rfl⟩
    | finite s' h' =>
      rw [Int.zero_add]
      exact .inl (ofUnits_of_canonical s' h').symm
  | @finite s m e h =>
    cases hv with
    | zero s' =>
      rw [Int.add_zero]
      exact .inl (ofUnits_of_canonical s h).symm
    | @finite s' m' e' h' =>
      have hleast : -1074 ≤ min e e' := le_min h.least h'.least
      rw [units_align s m hleast (min_le_left _ _), units_align s' m' hleast (min_le_right _ _),
        ← Int.add_mul]
      exact .inl (normalize_eq_ofUnits _ hleast)

theorem neg_apply (s : Sign) (n : Int) : (-s).apply n = -s.apply n := by
  cases s with
  | negative => exact (Int.neg_neg n).symm
  | positive => rfl

theorem HasUnits.neg (hu : HasUnits u i) : HasUnits u.neg (-i) := by
  cases hu with
  | zero s => exact .zero (-s)
  | finite s h =>
    rw [← neg_apply]
    exact .finite (-s) h

theorem HasUnits.sub_eq_add_neg (hu : HasUnits u i) (hv : HasUnits v j) :
    UnpackedFloat.sub .binary64 u v = UnpackedFloat.add .binary64 u v.neg := by
  cases hu with
  | zero s =>
    cases hv with
    | zero s' => cases s <;> cases s' <;> rfl
    | finite s' h' => rfl
  | @finite s m e h =>
    cases hv with
    | zero s' => rfl
    | @finite s' m' e' h' =>
      have hsign := neg_apply s' (m' <<< (e' - min e e').toNat : Nat)
      exact congrArg (fun n => normalize .binary64 (s.apply (m <<< (e - min e e').toNat : Nat) + n)
        (min e e') .positive) hsign.symm

/-- A difference is the exact difference of the units, rounded. -/
theorem HasUnits.sub (hu : HasUnits u i) (hv : HasUnits v j) :
    Nearest (UnpackedFloat.sub .binary64 u v) (i - j) := by
  rw [hu.sub_eq_add_neg hv, Int.sub_eq_add_neg]
  exact hu.add hv.neg

/-! ## What rounding keeps -/

/-- A float other than zero, with this sign. -/
def HasSign (s : Sign) : UnpackedFloat → Prop
  | .infinity s' => s' = s
  | .finite s' _ _ _ => s' = s
  | .zero _ | .notANumber => False

/-- The nearest double has the sign of the number, and is not zero unless the number is. -/
theorem Nearest.hasSign {s : Sign} {m : Nat} (hm : m ≠ 0) (h : Nearest u (s.apply m)) :
    HasSign s (unpack .binary64 (UnpackedFloat.pack .binary64 u)) := by
  obtain rfl : u = ofUnits (s.apply m) := h.resolve_right fun h => apply_ne_zero s hm h.1
  obtain ⟨m', e', hpos, heq, hlt, hleast, hleading⟩ := exists_roundWithAccuracy s hm
  rw [ofUnits_apply s hm, heq]
  rcases lt_or_ge 971 e' with hlarge | hmost
  · rw [pack_finite, if_pos (by omega),
      unpack_infinite unpackExponent_packComponents unpackMantissa_packComponents]
    exact ofBitVec_unpackSign s _ _
  · rw [unpack_pack s ⟨hpos, hlt, hleast, hmost, hleading⟩]
    rfl

theorem Nearest.unpack_pack_zero (h : Nearest u 0) :
    ∃ s, unpack .binary64 (UnpackedFloat.pack .binary64 u) = .zero s := by
  rcases h with rfl | ⟨-, s, rfl⟩
  · exact ⟨.positive, rfl⟩
  · cases s with
    | negative => exact ⟨.negative, rfl⟩
    | positive => exact ⟨.positive, rfl⟩

/-- The double nearest to a double is that double. -/
theorem Nearest.exact (h : Nearest u i) (hv : HasUnits v i) :
    HasUnits (unpack .binary64 (UnpackedFloat.pack .binary64 u)) i := by
  cases hv with
  | zero s =>
    obtain ⟨s', hs'⟩ := h.unpack_pack_zero
    rw [hs']
    exact .zero s'
  | @finite s m e hm =>
    have hne := apply_ne_zero s (Nat.mul_ne_zero hm.pos.ne' (Nat.two_pow_pos (e + 1074).toNat).ne')
    obtain rfl := h.resolve_right fun h => hne h.1
    rw [ofUnits_of_canonical s hm, unpack_pack s hm]
    exact .finite s hm

end TurtleLogo.Decimal
