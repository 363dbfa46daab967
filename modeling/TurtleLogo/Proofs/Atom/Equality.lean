import TurtleLogo.Operator
import TurtleLogo.Proofs.Decimal.Equality
import TurtleLogo.Proofs.Source.Numeral
import TurtleLogo.Proofs.Text.Line

set_option autoImplicit false

/-! # Equality of atoms

Atoms that are not lists are compared as numbers if both stand for one, and by their text
otherwise. The two ways agree as far as a number is displayed as a numeral, which every finite one
is (`isNumeral_displayNumber`). Equality is therefore symmetric, reflexive and structural
(`equality_structural`), and transitive but for the infinite numbers: these are displayed as words
that are no numerals (`equal_trans_iff`). -/

namespace TurtleLogo

/-! ## The text of a number -/

namespace Decimal

variable {ds : List Char} {x y : Float} {negative : Bool} {m : Nat} {q : Int}

theorem isDigits_toDigits (n : Nat) : IsDigits (Nat.toDigits 10 n) :=
  ⟨Nat.toDigits_ne_nil, isDigit_of_mem_toDigits n⟩

theorem isDigit_of_mem_zeros {n : Nat} : ∀ c ∈ List.replicate n '0', c.isDigit = true := by
  intro c hc
  rw [List.eq_of_mem_replicate hc]
  rfl

theorem isMantissa_writePlain {l : Layout} (hl : l.pointZero = false) (hds : IsDigits ds)
    (e : Int) : IsMantissa (l.writePlain ds e).toList := by
  obtain ⟨hne, hdigits⟩ := hds
  unfold Layout.writePlain
  dsimp only
  split
  · have htext : (String.ofList ds ++ zeros e.toNat ++ if l.pointZero then ".0" else "").toList
        = ds ++ List.replicate e.toNat '0' := by
      simp [hl, zeros]
    rw [htext]
    refine .whole ⟨by simp [hne], fun c hc => ?_⟩
    exact (List.mem_append.mp hc).elim (hdigits c) (isDigit_of_mem_zeros c)
  · split
    · next hpoint =>
      have htext : (String.ofList (ds.take ((ds.length : Int) + e).toNat) ++ "."
            ++ String.ofList (ds.drop ((ds.length : Int) + e).toNat)).toList
          = ds.take ((ds.length : Int) + e).toNat
            ++ '.' :: ds.drop ((ds.length : Int) + e).toNat := by
        simp
      rw [htext]
      refine .point (fun c hc => hdigits c (List.mem_of_mem_take hc))
        ⟨?_, fun c hc => hdigits c (List.mem_of_mem_drop hc)⟩
      rw [ne_eq, List.drop_eq_nil_iff]
      omega
    · have htext : ("0." ++ zeros (-((ds.length : Int) + e)).toNat ++ String.ofList ds).toList
          = ['0'] ++ '.' :: (List.replicate (-((ds.length : Int) + e)).toNat '0' ++ ds) := by
        simp [zeros]
      rw [htext]
      refine .point (by simp) ⟨by simp [hne], fun c hc => ?_⟩
      exact (List.mem_append.mp hc).elim (isDigit_of_mem_zeros c) (hdigits c)

theorem isMantissa_writeMagnitude {l : Layout} (hl : l.pointZero = false)
    (hplain : ∀ e, l.plain e = true) (m : Nat) (q : Int) :
    IsMantissa (l.writeMagnitude m q).toList := by
  unfold Layout.writeMagnitude
  split
  · rw [hl]
    exact .whole ⟨by simp, by simp⟩
  · simp only [hplain, if_true]
    exact isMantissa_writePlain hl (isDigits_toDigits _) _

end Decimal

open Decimal

variable {x y z : Float} {negative : Bool} {m : Nat} {q : Int}

theorem isNumeral_of_isMantissa {text : String} (h : IsMantissa text.toList) (p : Prop)
    [Decidable p] : isNumeral ((if p then "-" else "") ++ text) = true := by
  refine isNumeral_iff.mpr ⟨if p then ['-'] else [], text.toList, [], ?_, ?_, h, .none⟩
  · split <;> simp
  · split <;> simp

/-- A finite number is displayed as a numeral. -/
theorem isNumeral_displayNumber (h : parts x = .finite negative m q) :
    isNumeral (displayNumber x) = true := by
  unfold displayNumber
  split
  · refine isNumeral_of_isMantissa (.whole ?_) _
    rw [String.toList_ofList]
    exact isDigits_toDigits _
  · rw [Layout.write, h]
    exact isNumeral_of_isMantissa (isMantissa_writeMagnitude rfl (fun _ => rfl) m q) _

theorem displayNumber_of_infinite (h : parts x = .infinite negative) :
    displayNumber x = if negative then "-inf" else "inf" := by
  have hwhole : isWhole x = false := by simp [isWhole, h]
  rw [displayNumber, hwhole, Bool.false_and, if_neg Bool.false_ne_true, Layout.write, h]
  rfl

theorem isNumeral_of_infinite (h : parts x = .infinite negative) :
    isNumeral (displayNumber x) = false := by
  rw [displayNumber_of_infinite h]
  cases negative <;> rfl

/-! ## Atoms that are not lists -/

namespace Atom

variable {a b c : Atom} {w : String}

/-- No number in the atom, at any depth, is undefined. -/
inductive NaNFree : Atom → Prop
  | number {x : Float} : x.isNaN = false → NaNFree (.number x)
  | word (w : String) : NaNFree (.word w)
  | list {items : List Atom} : (∀ a ∈ items, NaNFree a) → NaNFree (.list items)

theorem number?_word_eq_none_iff : (Atom.word w).number? = none ↔ isNumeral w = false := by
  simp [number?, numeral?, isNumeral]

theorem isNaN_of_number? (h : a.NaNFree) (hx : a.number? = some x) : x.isNaN = false := by
  cases h with
  | number hnumber =>
    obtain rfl := Option.some.inj hx
    exact hnumber
  | word w =>
    obtain ⟨n, -, rfl⟩ := Option.map_eq_some_iff.mp hx
    exact isNaN_toFloat n
  | list => cases hx

/-- What stands for a number is displayed as a numeral, unless it is an infinite number. -/
theorem infinite_of_display (h : a.NaNFree) (hx : a.number? = some x)
    (hdisplay : isNumeral a.display = false) :
    a = .number x ∧ ∃ negative, parts x = .infinite negative := by
  cases h with
  | number hnumber =>
    obtain rfl := Option.some.inj hx
    refine ⟨rfl, ?_⟩
    cases hparts : parts _ with
    | nan => exact absurd hparts (parts_ne_nan hnumber)
    | infinite negative => exact ⟨negative, rfl⟩
    | finite negative m q =>
      rw [display, isNumeral_displayNumber hparts] at hdisplay
      cases hdisplay
  | word w =>
    rw [display, ← number?_word_eq_none_iff, hx] at hdisplay
    cases hdisplay
  | list => cases hx

theorem exists_word (hlist : a.list? = none) (h : a.number? = none) :
    ∃ w, a = .word w ∧ isNumeral w = false := by
  cases a with
  | number x => cases h
  | word w => exact ⟨w, rfl, number?_word_eq_none_iff.mp h⟩
  | list items => cases hlist

theorem sameWord_of_some (hx : a.number? = some x) (hy : b.number? = some y) :
    sameWord a b = (x == y) := by
  simp only [sameWord, hx, hy]

theorem sameWord_of_none (h : a.number? = none ∨ b.number? = none) :
    sameWord a b = (a.display == b.display) := by
  rcases h with h | h
  · simp only [sameWord, h]
  · cases ha : a.number? <;> simp only [sameWord, ha, h]

theorem sameWord_comm (a b : Atom) : sameWord a b = sameWord b a := by
  cases ha : a.number? with
  | none => rw [sameWord_of_none (.inl ha), sameWord_of_none (.inr ha), BEq.comm]
  | some x =>
    cases hb : b.number? with
    | none => rw [sameWord_of_none (.inr hb), sameWord_of_none (.inl hb), BEq.comm]
    | some y => rw [sameWord_of_some ha hb, sameWord_of_some hb ha, Decimal.beq_comm]

theorem sameWord_self_iff (hlist : a.list? = none) : sameWord a a = true ↔ a.NaNFree := by
  cases a with
  | number x =>
    rw [sameWord_of_some rfl rfl, beq_self_iff]
    exact ⟨.number, fun h => isNaN_of_number? h rfl⟩
  | word w =>
    refine ⟨fun _ => .word w, fun h => ?_⟩
    cases hnumber : (Atom.word w).number? with
    | none => rw [sameWord_of_none (.inl hnumber), beq_self_eq_true]
    | some x => rw [sameWord_of_some hnumber hnumber, beq_self_iff, isNaN_of_number? h hnumber]
  | list items => cases hlist

/-! ## Numerals that are too large -/

/-- A numeral that is too large for a double, the infinite number that it stands for, and the word
in which that number is displayed. -/
def Overflow (a b c : Atom) : Prop :=
  ∃ w x, a = .word w ∧ numeral? w = some x ∧ x.isInf = true ∧ b = .number x ∧
    c = .word (displayNumber x)

/-- The first two stand for a number, and the third does not. -/
theorem not_overflow (h : a.number? = none ∨ b.number? = none ∨ c.number? ≠ none) :
    ¬ Overflow a b c := by
  rintro ⟨w, x, rfl, hw, hinf, rfl, rfl⟩
  obtain ⟨negative, hparts⟩ := isInf_iff.mp hinf
  rcases h with h | h | h
  · rw [Atom.number?, hw] at h
    cases h
  · cases h
  · exact h (number?_word_eq_none_iff.mpr (isNumeral_of_infinite hparts))

/-- Two infinite numbers that are displayed alike are equal. -/
theorem eq_of_displayNumber {negative' : Bool} (hx : parts x = .infinite negative)
    (hy : parts y = .infinite negative') (h : displayNumber x = displayNumber y) : x = y := by
  rw [displayNumber_of_infinite hx, displayNumber_of_infinite hy] at h
  obtain rfl : negative = negative' := by
    cases negative <;> cases negative' <;> simp at h ⊢
  exact eq_of_infinite hx hy

/-- An atom equal to a number whose text is that of a word equals the word, too, unless it is a
numeral. -/
theorem sameWord_iff_not_overflow (hb : b.NaNFree) (hclist : c.list? = none)
    (hx : a.number? = some x) (hy : b.number? = some y) (hc : c.number? = none)
    (hxy : (x == y) = true) (hdisplay : b.display = c.display) :
    sameWord a c = true ↔ ¬ Overflow a b c := by
  obtain ⟨w, rfl, hw⟩ := exists_word hclist hc
  obtain ⟨rfl, negative, hparts⟩ := infinite_of_display hb hy (by rw [hdisplay]; exact hw)
  obtain rfl := eq_of_infinite (parts_of_beq hxy hparts) hparts
  rw [sameWord_of_none (.inr hc), beq_iff_eq]
  cases a with
  | number x' =>
    obtain rfl := Option.some.inj hx
    refine ⟨fun _ h => ?_, fun _ => hdisplay⟩
    obtain ⟨v, x, hv, -⟩ := h
    cases hv
  | word v =>
    have hv : isNumeral v = true := by
      rw [← Bool.not_eq_false, ← number?_word_eq_none_iff, hx]
      simp
    constructor
    · intro h
      obtain rfl : v = w := h
      rw [hw] at hv
      cases hv
    · intro h
      refine absurd ⟨v, x, rfl, hx, isInf_iff.mpr ⟨negative, hparts⟩, rfl, ?_⟩ h
      exact congrArg Atom.word hdisplay.symm
  | list items => cases hx

/-- Two atoms that are displayed as the same word, which is no numeral, are equal. -/
theorem sameWord_of_display (ha : a.NaNFree) (hc : c.NaNFree) (hdisplay : a.display = c.display)
    (hword : isNumeral a.display = false) : sameWord a c = true := by
  cases hx : a.number? with
  | none => rw [sameWord_of_none (.inl hx), beq_iff_eq, hdisplay]
  | some x =>
    cases hz : c.number? with
    | none => rw [sameWord_of_none (.inr hz), beq_iff_eq, hdisplay]
    | some z =>
      obtain ⟨rfl, negative, hx'⟩ := infinite_of_display ha hx hword
      obtain ⟨rfl, negative', hz'⟩ := infinite_of_display hc hz (hdisplay ▸ hword)
      obtain rfl := eq_of_displayNumber hx' hz' hdisplay
      rw [sameWord_of_some rfl rfl, beq_self_iff, isNaN_of_number? ha rfl]

theorem sameWord_trans_iff (ha : a.NaNFree) (hb : b.NaNFree) (hc : c.NaNFree)
    (halist : a.list? = none) (hblist : b.list? = none) (hclist : c.list? = none)
    (hab : sameWord a b = true) (hbc : sameWord b c = true) :
    sameWord a c = true ↔ ¬ (Overflow a b c ∨ Overflow c b a) := by
  rw [not_or]
  cases hy : b.number? with
  | none =>
    -- Both outer atoms are displayed as the word in the middle, which is no numeral.
    obtain ⟨w, rfl, hw⟩ := exists_word hblist hy
    rw [sameWord_of_none (.inr hy), beq_iff_eq] at hab
    rw [sameWord_of_none (.inl hy), beq_iff_eq] at hbc
    exact iff_of_true (sameWord_of_display ha hc (hab.trans hbc) (by rw [hab]; exact hw))
      ⟨not_overflow (.inr (.inl hy)), not_overflow (.inr (.inl hy))⟩
  | some y =>
    cases hx : a.number? with
    | none =>
      have hback := not_overflow (b := b) (c := c) (.inl hx)
      rw [sameWord_of_none (.inl hx), beq_iff_eq] at hab
      cases hz : c.number? with
      | none =>
        rw [sameWord_of_none (.inr hz), beq_iff_eq] at hbc
        rw [sameWord_of_none (.inl hx), beq_iff_eq]
        exact iff_of_true (hab.trans hbc) ⟨hback, not_overflow (.inl hz)⟩
      | some z =>
        rw [sameWord_of_some hy hz, Decimal.beq_comm] at hbc
        rw [sameWord_comm, sameWord_iff_not_overflow hb halist hz hy hx hbc hab.symm,
          and_iff_right hback]
    | some x =>
      have hforth := not_overflow (a := c) (b := b) (c := a) (.inr (.inr (by simp [hx])))
      rw [sameWord_of_some hx hy] at hab
      cases hz : c.number? with
      | none =>
        rw [sameWord_of_none (.inr hz), beq_iff_eq] at hbc
        rw [sameWord_iff_not_overflow hb hclist hx hy hz hab hbc, and_iff_left hforth]
      | some z =>
        rw [sameWord_of_some hy hz] at hbc
        rw [sameWord_of_some hx hz]
        exact iff_of_true (beq_trans hab hbc) ⟨not_overflow (.inr (.inr (by simp [hz]))), hforth⟩

/-! ## Lists -/

/-- An atom is reached from those that are not lists. -/
theorem nested_induction {motive : Atom → Prop} (leaf : ∀ a, a.list? = none → motive a)
    (list : ∀ items, (∀ a ∈ items, motive a) → motive (.list items)) : ∀ a, motive a
  | .number x => leaf (.number x) rfl
  | .word w => leaf (.word w) rfl
  | .list items => list items fun a _ => nested_induction leaf list a

theorem equal_leaf (ha : a.list? = none) (hb : b.list? = none) : a.equal b = sameWord a b := by
  cases a with
  | list items => cases ha
  | number | word =>
    cases b with
    | list items => cases hb
    | number | word => rw [equal] <;> simp

theorem equal_list_leaf (items : List Atom) (hb : b.list? = none) :
    (Atom.list items).equal b = false ∧ b.equal (.list items) = false := by
  cases b with
  | list items => cases hb
  | number | word => exact ⟨rfl, rfl⟩

theorem list?_of_equal (ha : a.list? = none) (h : a.equal b = true) : b.list? = none := by
  cases b with
  | list items =>
    rw [(equal_list_leaf items ha).2] at h
    cases h
  | number | word => rfl

theorem exists_list_of_equal {items : List Atom} (h : (Atom.list items).equal b = true) :
    ∃ others, b = .list others := by
  cases b with
  | list others => exact ⟨others, rfl⟩
  | number | word => cases h

/-- Lists are equal if they are equally long and equal item by item. -/
theorem equal_list_iff {xs ys : List Atom} :
    (Atom.list xs).equal (.list ys) = true ↔ xs.length = ys.length ∧
      ∀ (i : Nat) (a b : Atom), xs[i]? = some a → ys[i]? = some b → a.equal b = true := by
  rw [equal]
  induction xs generalizing ys with
  | nil => cases ys <;> simp [equalItems]
  | cons x xs ih =>
    cases ys with
    | nil => simp [equalItems]
    | cons y ys =>
      rw [equalItems, Bool.and_eq_true, ih, List.length_cons, List.length_cons, Nat.succ_inj]
      constructor
      · rintro ⟨hhead, hlength, htail⟩
        refine ⟨hlength, fun i a b ha hb => ?_⟩
        cases i with
        | zero =>
          obtain rfl := Option.some.inj ha
          obtain rfl := Option.some.inj hb
          exact hhead
        | succ i => exact htail i a b ha hb
      · rintro ⟨hlength, hitems⟩
        exact ⟨hitems 0 x y rfl rfl, hlength, fun i => hitems (i + 1)⟩

theorem equal_comm (a b : Atom) : a.equal b = b.equal a := by
  induction a using nested_induction generalizing b with
  | leaf a ha =>
    cases b with
    | list ys => rw [(equal_list_leaf ys ha).1, (equal_list_leaf ys ha).2]
    | number | word => rw [equal_leaf ha rfl, equal_leaf rfl ha, sameWord_comm]
  | list xs ih =>
    cases b with
    | list ys =>
      rw [Bool.eq_iff_iff, equal_list_iff, equal_list_iff, eq_comm]
      refine and_congr_right fun _ => ⟨fun h i b a hb ha => ?_, fun h i a b ha hb => ?_⟩
      · rw [← ih a (List.mem_of_getElem? ha)]
        exact h i a b ha hb
      · rw [ih a (List.mem_of_getElem? ha)]
        exact h i b a hb ha
    | number | word => rw [(equal_list_leaf xs rfl).1, (equal_list_leaf xs rfl).2]

theorem equal_self_iff (a : Atom) : a.equal a = true ↔ a.NaNFree := by
  induction a using nested_induction with
  | leaf a ha => rw [equal_leaf ha ha, sameWord_self_iff ha]
  | list xs ih =>
    rw [equal_list_iff]
    constructor
    · rintro ⟨-, hitems⟩
      refine .list fun a ha => (ih a ha).mp ?_
      obtain ⟨i, hi⟩ := List.mem_iff_getElem?.mp ha
      exact hitems i a a hi hi
    · intro h
      cases h with
      | list hitems =>
        refine ⟨rfl, fun i a b ha hb => ?_⟩
        obtain rfl : a = b := Option.some.inj (ha.symm.trans hb)
        have hmem := List.mem_of_getElem? ha
        exact (ih a hmem).mpr (hitems a hmem)

theorem truth?_ofBool (t : Bool) : (ofBool t).truth? = some t := by
  cases t <;> rfl

/-- Equality is symmetric, and reflexive on every atom without an undefined number; lists are equal
if they are equally long and equal item by item, and no list equals a word or a number; and the
two operators never fail and have opposite truth values. -/
theorem equality_structural (a b : Atom) :
    a.equal b = b.equal a ∧
    (a.equal a = true ↔ a.NaNFree) ∧
    (∀ xs ys : List Atom, (Atom.list xs).equal (.list ys) = true ↔ xs.length = ys.length ∧
      ∀ (i : Nat) (x y : Atom), xs[i]? = some x → ys[i]? = some y → x.equal y = true) ∧
    (b.list? = none → ∀ xs, (Atom.list xs).equal b = false ∧ b.equal (.list xs) = false) ∧
    ∃ same different, Operator.equal.apply a b = .ok same ∧
      Operator.notEqual.apply a b = .ok different ∧
      same.truth? = some (a.equal b) ∧ different.truth? = some (!a.equal b) := by
  refine ⟨equal_comm a b, equal_self_iff a, fun xs ys => equal_list_iff,
    fun hb xs => equal_list_leaf xs hb, ?_⟩
  exact ⟨_, _, rfl, rfl, truth?_ofBool _, truth?_ofBool _⟩

/-! ## Transitivity -/

/-- At the same place in three atoms, a numeral that is too large, the number that it stands for
and the text of that number, in this order or the other way round. -/
inductive Torn : Atom → Atom → Atom → Prop
  | here {a b c : Atom} : Overflow a b c ∨ Overflow c b a → Torn a b c
  | inside {xs ys zs : List Atom} {a b c : Atom} (i : Nat) : xs[i]? = some a → ys[i]? = some b →
      zs[i]? = some c → Torn a b c → Torn (.list xs) (.list ys) (.list zs)

theorem torn_leaf_iff (hb : b.list? = none) :
    Torn a b c ↔ Overflow a b c ∨ Overflow c b a := by
  refine ⟨fun h => ?_, .here⟩
  cases h with
  | here h => exact h
  | inside => cases hb

theorem torn_list_iff {xs ys zs : List Atom} :
    Torn (.list xs) (.list ys) (.list zs) ↔ ∃ (i : Nat) (a b c : Atom), xs[i]? = some a ∧
      ys[i]? = some b ∧ zs[i]? = some c ∧ Torn a b c := by
  constructor
  · intro h
    cases h with
    | here h => obtain ⟨_, _, h, -⟩ | ⟨_, _, h, -⟩ := h <;> cases h
    | inside i ha hb hc h => exact ⟨i, _, _, _, ha, hb, hc, h⟩
  · rintro ⟨i, a, b, c, ha, hb, hc, h⟩
    exact .inside i ha hb hc h

/-- Equality is transitive on atoms without undefined numbers, but for numerals that are too large
for a double: such a numeral equals an infinite number, and that number equals the word in which it
is displayed, while the numeral and the word are not equal. -/
theorem equal_trans_iff (ha : a.NaNFree) (hb : b.NaNFree) (hc : c.NaNFree)
    (hab : a.equal b = true) (hbc : b.equal c = true) : a.equal c = true ↔ ¬ Torn a b c := by
  induction a using nested_induction generalizing b c with
  | leaf a halist =>
    have hblist := list?_of_equal halist hab
    have hclist := list?_of_equal hblist hbc
    rw [equal_leaf halist hblist] at hab
    rw [equal_leaf hblist hclist] at hbc
    rw [equal_leaf halist hclist, torn_leaf_iff hblist]
    exact sameWord_trans_iff ha hb hc halist hblist hclist hab hbc
  | list xs ih =>
    obtain ⟨ys, rfl⟩ := exists_list_of_equal hab
    obtain ⟨zs, rfl⟩ := exists_list_of_equal hbc
    cases ha with | list ha
    cases hb with | list hb
    cases hc with | list hc
    obtain ⟨hlength, hab⟩ := equal_list_iff.mp hab
    obtain ⟨hlength', hbc⟩ := equal_list_iff.mp hbc
    -- Item by item, the first list and the last are equal unless torn.
    have hitem : ∀ {i : Nat} {a b c : Atom}, xs[i]? = some a → ys[i]? = some b →
        zs[i]? = some c → (a.equal c = true ↔ ¬ Torn a b c) := fun hx hy hz =>
      ih _ (List.mem_of_getElem? hx) (ha _ (List.mem_of_getElem? hx))
        (hb _ (List.mem_of_getElem? hy)) (hc _ (List.mem_of_getElem? hz)) (hab _ _ _ hx hy)
        (hbc _ _ _ hy hz)
    rw [equal_list_iff, torn_list_iff]
    constructor
    · rintro ⟨-, hac⟩ ⟨i, a, b, c, hx, hy, hz, htorn⟩
      exact (hitem hx hy hz).mp (hac i a c hx hz) htorn
    · intro hwhole
      refine ⟨hlength.trans hlength', fun i a c hx hz => ?_⟩
      have hi : i < ys.length := hlength ▸ (List.getElem?_eq_some_iff.mp hx).1
      have hy := List.getElem?_eq_getElem hi
      exact (hitem hx hy hz).mpr fun htorn => hwhole ⟨i, a, _, c, hx, hy, hz, htorn⟩

/-- The numeral `1e999` and the word `inf` equal the same infinite number, but not each other. -/
theorem equal_not_trans :
    (Atom.word "1e999").NaNFree ∧ (Atom.number infinity).NaNFree ∧ (Atom.word "inf").NaNFree ∧
    (Atom.word "1e999").equal (.number infinity) = true ∧
    (Atom.number infinity).equal (.word "inf") = true ∧
    (Atom.word "1e999").equal (.word "inf") = false := by
  refine ⟨.word _, .number ?_, .word _, ?_, ?_, ?_⟩ <;> decide +kernel

/-- A numeral and an infinite number at two depths. -/
theorem equal_trans_iff_nested :
    (Atom.list [.word "1e1", .list [.word "-inf"]]).NaNFree ∧
    (Atom.list [.number 10.0, .list [.number (-infinity)]]).NaNFree ∧
    (Atom.list [.word "10.0", .list [.word "-1e999"]]).NaNFree ∧
    (Atom.list [.word "1e1", .list [.word "-inf"]]).equal
      (.list [.number 10.0, .list [.number (-infinity)]]) = true ∧
    (Atom.list [.number 10.0, .list [.number (-infinity)]]).equal
      (.list [.word "10.0", .list [.word "-1e999"]]) = true ∧
    ((Atom.list [.word "1e1", .list [.word "-inf"]]).equal
        (.list [.word "10.0", .list [.word "-1e999"]]) = true ↔
      ¬ Torn (.list [.word "1e1", .list [.word "-inf"]])
        (.list [.number 10.0, .list [.number (-infinity)]])
        (.list [.word "10.0", .list [.word "-1e999"]])) := by
  have ha : (Atom.list [.word "1e1", .list [.word "-inf"]]).NaNFree :=
    (equal_self_iff _).mp (by decide +kernel)
  have hb : (Atom.list [.number 10.0, .list [.number (-infinity)]]).NaNFree :=
    (equal_self_iff _).mp (by decide +kernel)
  have hc : (Atom.list [.word "10.0", .list [.word "-1e999"]]).NaNFree :=
    (equal_self_iff _).mp (by decide +kernel)
  have hab : (Atom.list [.word "1e1", .list [.word "-inf"]]).equal
      (.list [.number 10.0, .list [.number (-infinity)]]) = true := by decide +kernel
  have hbc : (Atom.list [.number 10.0, .list [.number (-infinity)]]).equal
      (.list [.word "10.0", .list [.word "-1e999"]]) = true := by decide +kernel
  exact ⟨ha, hb, hc, hab, hbc, equal_trans_iff ha hb hc hab hbc⟩

end Atom

end TurtleLogo
