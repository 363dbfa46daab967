import TurtleLogo.Proofs.Source.Compose

set_option autoImplicit false

/-! # Numerals in a text

A word counts as a numeral by its shape alone (`isNumeral_iff`), while a scan finds out character by
character where a word ends. The two agree: a word of that shape is a word of a scan
(`isWord_of_isNumeral`), so it is read whole wherever a word may begin. -/

namespace TurtleLogo

/-! ## The shape of a numeral -/

namespace Decimal

variable {cs ds : List Char}

/-- One or more decimal digits. -/
def IsDigits (ds : List Char) : Prop :=
  ds ≠ [] ∧ ∀ c ∈ ds, c.isDigit = true

/-- Digits, or a point with any number of digits before it and at least one after it. -/
inductive IsMantissa : List Char → Prop
  | whole {ds : List Char} : IsDigits ds → IsMantissa ds
  | point {ds fraction : List Char} : (∀ c ∈ ds, c.isDigit = true) → IsDigits fraction →
      IsMantissa (ds ++ '.' :: fraction)

/-- Nothing, or the letter of an exponent with digits that may have a sign. -/
inductive IsExponent : List Char → Prop
  | none : IsExponent []
  | plain {c : Char} {ds : List Char} : c = 'e' ∨ c = 'E' → IsDigits ds → IsExponent (c :: ds)
  | signed {c sign : Char} {ds : List Char} : c = 'e' ∨ c = 'E' → sign = '-' ∨ sign = '+' →
      IsDigits ds → IsExponent (c :: sign :: ds)

theorem exponentDigits?_isSome_iff : (exponentDigits? ds).isSome = true ↔ IsDigits ds := by
  simp [exponentDigits?, IsDigits]

theorem isSome_cast (n : Option Nat) : (n >>= fun k => pure (k : Int)).isSome = n.isSome := by
  cases n <;> rfl

theorem IsDigits.head_isDigit {c : Char} (h : IsDigits (c :: ds)) : c.isDigit = true :=
  h.2 c List.mem_cons_self

theorem exponent?_isSome_iff : (exponent? cs).isSome = true ↔ IsExponent cs := by
  rcases cs with _ | ⟨c, cs⟩
  · exact ⟨fun _ => .none, fun _ => rfl⟩
  by_cases hc : c = 'e' ∨ c = 'E'
  · have hletter : (decide (c = 'e') || decide (c = 'E')) = true := by simpa using hc
    simp only [exponent?, hletter, if_true]
    split
    · next ds =>
      rw [Option.isSome_map, isSome_cast, exponentDigits?_isSome_iff]
      refine ⟨.signed hc (.inl rfl), fun h => ?_⟩
      cases h with
      | plain _ hds => exact absurd hds.head_isDigit (by decide)
      | signed _ _ hds => exact hds
    · next ds =>
      rw [Option.isSome_map, isSome_cast, exponentDigits?_isSome_iff]
      refine ⟨.signed hc (.inr rfl), fun h => ?_⟩
      cases h with
      | plain _ hds => exact absurd hds.head_isDigit (by decide)
      | signed _ _ hds => exact hds
    · next hminus hplus =>
      rw [Option.isSome_map, isSome_cast, exponentDigits?_isSome_iff]
      refine ⟨.plain hc, fun h => ?_⟩
      cases h with
      | plain _ hds => exact hds
      | signed _ hsign _ =>
        rcases hsign with rfl | rfl
        · exact absurd rfl (hminus _)
        · exact absurd rfl (hplus _)
  · have hletter : (decide (c = 'e') || decide (c = 'E')) = false := by simpa using hc
    simp only [exponent?, hletter, Bool.false_eq_true, if_false, Option.isSome_none, false_iff]
    intro h
    cases h with
    | plain hc' | signed hc' => exact hc hc'

/-- No exponent begins with a digit or a point. -/
theorem IsExponent.head (h : IsExponent cs) :
    ∀ c ∈ cs.head?, c.isDigit = false ∧ c ≠ '.' := by
  cases h with
  | none => simp
  | plain hc | signed hc => rcases hc with rfl | rfl <;> simp

theorem spanDigits_append {rest : List Char} (hds : ∀ c ∈ ds, c.isDigit = true)
    (hrest : ∀ c ∈ rest.head?, c.isDigit = false) : spanDigits (ds ++ rest) = (ds, rest) := by
  rw [spanDigits, List.takeWhile_append_of_pos hds, List.dropWhile_append_of_pos hds]
  cases rest with
  | nil => simp
  | cons c rest =>
    have hc := hrest c rfl
    simp [hc]

theorem spanDigits_cases (cs : List Char) :
    ∃ ds rest, cs = ds ++ rest ∧ (∀ c ∈ ds, c.isDigit = true) ∧
      (∀ c ∈ rest.head?, c.isDigit = false) := by
  refine ⟨cs.takeWhile Char.isDigit, cs.dropWhile Char.isDigit,
    List.takeWhile_append_dropWhile.symm, fun c hc => List.mem_takeWhile_imp hc, fun c hc => ?_⟩
  have hhead := List.head?_dropWhile_not Char.isDigit cs
  rw [hc] at hhead
  exact hhead

/-- Digits that no further digit follows make a mantissa exactly if there are any. -/
theorem unsigned?_of_not_point {rest : List Char} (negative : Bool)
    (hds : ∀ c ∈ ds, c.isDigit = true) (hrest : ∀ c ∈ rest.head?, c.isDigit = false ∧ c ≠ '.') :
    (Numeral.unsigned? negative (ds ++ rest)).isSome = true ↔ ds ≠ [] ∧ IsExponent rest := by
  rw [Numeral.unsigned?, spanDigits_append hds fun c hc => (hrest c hc).1, ← exponent?_isSome_iff]
  cases rest with
  | nil => cases ds <;> simp [exponent?]
  | cons c rest =>
    have hc := (hrest c rfl).2
    simp only
    split
    · next heq => exact absurd (List.cons.inj heq).1 hc
    · cases ds <;> simp

theorem unsigned?_of_point {fraction rest : List Char} (negative : Bool)
    (hds : ∀ c ∈ ds, c.isDigit = true) (hfraction : ∀ c ∈ fraction, c.isDigit = true)
    (hrest : ∀ c ∈ rest.head?, c.isDigit = false) :
    (Numeral.unsigned? negative (ds ++ '.' :: (fraction ++ rest))).isSome = true ↔
      fraction ≠ [] ∧ IsExponent rest := by
  have hpoint : ∀ c ∈ ('.' :: (fraction ++ rest)).head?, c.isDigit = false := by simp
  rw [Numeral.unsigned?, spanDigits_append hds hpoint, ← exponent?_isSome_iff]
  simp only [spanDigits_append hfraction hrest]
  cases fraction <;> simp

theorem unsigned?_isSome_iff (negative : Bool) (cs : List Char) :
    (Numeral.unsigned? negative cs).isSome = true ↔
      ∃ mantissa exponent, cs = mantissa ++ exponent ∧ IsMantissa mantissa ∧
        IsExponent exponent := by
  constructor
  · intro h
    obtain ⟨ds, rest, rfl, hds, hrest⟩ := spanDigits_cases cs
    by_cases hpoint : rest.head? = some '.'
    · obtain ⟨rest, rfl⟩ := List.head?_eq_some_iff.mp hpoint
      obtain ⟨fraction, exponent, rfl, hfraction, hexponent⟩ := spanDigits_cases rest
      obtain ⟨hne, hshape⟩ := (unsigned?_of_point negative hds hfraction hexponent).mp h
      exact ⟨ds ++ '.' :: fraction, exponent, by simp, .point hds ⟨hne, hfraction⟩, hshape⟩
    · have hhead : ∀ c ∈ rest.head?, c.isDigit = false ∧ c ≠ '.' := by
        rintro c hc
        refine ⟨hrest c hc, ?_⟩
        rintro rfl
        exact hpoint hc
      obtain ⟨hne, hshape⟩ := (unsigned?_of_not_point negative hds hhead).mp h
      exact ⟨ds, rest, rfl, .whole ⟨hne, hds⟩, hshape⟩
  · rintro ⟨mantissa, exponent, rfl, hmantissa, hexponent⟩
    cases hmantissa with
    | whole hds =>
      exact (unsigned?_of_not_point negative hds.2 hexponent.head).mpr ⟨hds.1, hexponent⟩
    | @point ds fraction hds hfraction =>
      have hrest : ∀ c ∈ exponent.head?, c.isDigit = false := fun c hc => (hexponent.head c hc).1
      rw [List.append_assoc, List.cons_append]
      exact (unsigned?_of_point negative hds hfraction.2 hrest).mpr ⟨hfraction.1, hexponent⟩

/-- A mantissa begins with a digit, or with a point and a digit. -/
theorem IsMantissa.startsNumeral (h : IsMantissa cs) (rest : List Char) :
    Lexeme.startsNumeral (cs ++ rest) = true := by
  cases h with
  | whole hds =>
    obtain ⟨hne, hds⟩ := hds
    obtain ⟨c, cs, rfl⟩ := List.exists_cons_of_ne_nil hne
    have hc := hds c List.mem_cons_self
    rw [List.cons_append, Lexeme.startsNumeral_cons (Lexeme.ne_of_isDigit hc (by decide)), hc]
  | @point ds fraction hds hfraction =>
    cases ds with
    | nil =>
      obtain ⟨c, fraction, rfl⟩ := List.exists_cons_of_ne_nil hfraction.1
      exact hfraction.head_isDigit
    | cons c ds =>
      have hc := hds c List.mem_cons_self
      rw [List.cons_append, List.cons_append,
        Lexeme.startsNumeral_cons (Lexeme.ne_of_isDigit hc (by decide)), hc]

end Decimal

/-- A numeral is an optional minus, a mantissa and perhaps an exponent, and nothing else. -/
theorem isNumeral_iff {w : String} :
    isNumeral w = true ↔ ∃ sign mantissa exponent, w.toList = sign ++ (mantissa ++ exponent) ∧
      (sign = [] ∨ sign = ['-']) ∧ Decimal.IsMantissa mantissa ∧ Decimal.IsExponent exponent := by
  rw [isNumeral]
  generalize w.toList = cs
  by_cases hminus : cs.head? = some '-'
  · obtain ⟨cs, rfl⟩ := List.head?_eq_some_iff.mp hminus
    rw [Decimal.Numeral.parse?, Decimal.unsigned?_isSome_iff]
    constructor
    · rintro ⟨mantissa, exponent, rfl, hmantissa, hexponent⟩
      exact ⟨['-'], mantissa, exponent, rfl, .inr rfl, hmantissa, hexponent⟩
    · rintro ⟨sign, mantissa, exponent, hcs, rfl | rfl, hmantissa, hexponent⟩
      · have hstarts := hmantissa.startsNumeral exponent
        rw [← List.nil_append (mantissa ++ exponent), ← hcs] at hstarts
        exact absurd hstarts (by simp [Lexeme.startsNumeral])
      · exact ⟨mantissa, exponent, (List.cons.inj hcs).2, hmantissa, hexponent⟩
  · have hparse : Decimal.Numeral.parse? cs = Decimal.Numeral.unsigned? false cs := by
      unfold Decimal.Numeral.parse?
      split
      · simp at hminus
      · rfl
    rw [hparse, Decimal.unsigned?_isSome_iff]
    constructor
    · rintro ⟨mantissa, exponent, rfl, hmantissa, hexponent⟩
      exact ⟨[], mantissa, exponent, rfl, .inl rfl, hmantissa, hexponent⟩
    · rintro ⟨sign, mantissa, exponent, hcs, rfl | rfl, hmantissa, hexponent⟩
      · exact ⟨mantissa, exponent, hcs, hmantissa, hexponent⟩
      · exact absurd (by rw [hcs]; rfl) hminus

/-! ## A numeral is a word -/

namespace Lexeme

variable {cs spelt mantissa exponent : List Char}

theorem staysBare_of_numeral (h : ∀ d ∈ cs, d.isDigit = true ∨ d = '.') (spelt : List Char) :
    staysBare spelt cs = true := by
  induction cs generalizing spelt with
  | nil => rfl
  | cons d cs ih =>
    obtain ⟨hd, hcs⟩ := List.forall_mem_cons.mp h
    simp [staysBare, continuesBare_of_numeral hd, ih hcs]

theorem chars_of_mantissa (h : Decimal.IsMantissa mantissa) :
    ∀ d ∈ mantissa, d.isDigit = true ∨ d = '.' := by
  intro d hd
  cases h with
  | whole hds => exact .inl (hds.2 d hd)
  | point hds hfraction =>
    rcases List.mem_append.mp hd with hd | hd
    · exact .inl (hds d hd)
    · rcases List.mem_cons.mp hd with hd | hd
      · exact .inr hd
      · exact .inl (hfraction.2 d hd)

/-- A mantissa by its shape is one by its characters. -/
theorem isMantissa_of_shape (h : Decimal.IsMantissa mantissa) : isMantissa mantissa = true := by
  have hall : mantissa.all (fun c => c.isDigit || c == '.') = true := by
    simpa using chars_of_mantissa h
  have hpoint : ∀ {ds : List Char}, (∀ c ∈ ds, c.isDigit = true) → ds.count '.' = 0 := by
    intro ds hds
    exact List.count_eq_zero.mpr fun hmem => absurd (hds _ hmem) (by decide)
  obtain ⟨hany, hcount⟩ : mantissa.any Char.isDigit = true ∧ mantissa.count '.' ≤ 1 := by
    cases h with
    | whole hds =>
      obtain ⟨hne, hds⟩ := hds
      obtain ⟨c, hc⟩ := List.exists_mem_of_ne_nil mantissa hne
      exact ⟨List.any_eq_true.mpr ⟨c, hc, hds c hc⟩, by simp [hpoint hds]⟩
    | @point ds fraction hds hfraction =>
      obtain ⟨hne, hfraction⟩ := hfraction
      obtain ⟨c, hc⟩ := List.exists_mem_of_ne_nil fraction hne
      exact ⟨List.any_eq_true.mpr ⟨c, by simp [hc], hfraction c hc⟩,
        by simp [List.count_append, hpoint hds, hpoint hfraction]⟩
  simp [isMantissa, hany, hall, hcount]

/-- After a mantissa the word goes on over the exponent, its sign included. -/
theorem staysBare_exponent (hexponent : Decimal.IsExponent exponent)
    (hspelt : isSignedMantissa spelt.reverse = true) : staysBare spelt exponent = true := by
  have hdigits : ∀ {ds}, Decimal.IsDigits ds → ∀ spelt, staysBare spelt ds = true :=
    fun hds => staysBare_of_numeral fun d hd => .inl (hds.2 d hd)
  have hletter : ∀ {c}, c = 'e' ∨ c = 'E' → continuesBare spelt c = true := by
    rintro c (rfl | rfl) <;> rfl
  cases hexponent with
  | none => rfl
  | plain hc hds => simp [staysBare, hletter hc, hdigits hds]
  | @signed c sign ds hc hsign hds =>
    have hopens : opensExponent (c :: spelt) = true := by simpa [opensExponent, hspelt] using hc
    have hgoes : continuesBare (c :: spelt) sign = true := by
      rcases hsign with rfl | rfl <;> simp [continuesBare, hopens] <;> decide
    simp [staysBare, hletter hc, hgoes, hdigits hds]

theorem isWord_of_isNumeral {w : String} (h : isNumeral w = true) : IsWord w.toList := by
  obtain ⟨sign, mantissa, exponent, hw, hsign, hmantissa, hexponent⟩ := isNumeral_iff.mp h
  rw [hw]
  have hchars := chars_of_mantissa hmantissa
  rcases hsign with rfl | rfl
  · rw [List.nil_append]
    cases mantissa with
    | nil => exact absurd (isMantissa_of_shape hmantissa) (by decide)
    | cons c cs =>
      have hc := hchars c List.mem_cons_self
      have hminus : c ≠ '-' := by
        rintro rfl
        exact absurd hc (by decide)
      have hsigned : isSignedMantissa (c :: cs) = true := by
        unfold isSignedMantissa
        split
        · next heq => exact absurd (List.cons.inj heq).1 hminus
        · exact isMantissa_of_shape hmantissa
      rw [List.cons_append]
      refine .bare ?_ ?_
      · rcases hc with hc | rfl
        · have hquote : c ≠ '"' := ne_of_isDigit hc (by decide)
          simp [opensBare, endsWord_of_isDigit hc, isOperatorMark_of_isDigit hc, hquote]
        · rfl
      · rw [staysBare_append, staysBare_of_numeral fun d hd => hchars d (List.mem_cons_of_mem c hd)]
        exact staysBare_exponent hexponent (by simpa using hsigned)
  · rw [List.singleton_append]
    refine .bare ((opensBare_minus _).trans (hmantissa.startsNumeral exponent)) ?_
    rw [staysBare_append, staysBare_of_numeral hchars]
    refine staysBare_exponent hexponent ?_
    simpa [isSignedMantissa] using isMantissa_of_shape hmantissa

end Lexeme

/-! ## Reading -/

open Lexeme

/-- A numeral, whatever its length and its signs, is read as one word and never split: by itself,
wherever a word may begin in a text before something that ends a word, and as an item of a list.
The last part is about any text, brackets that are open included. -/
theorem numeral_read_whole {w : String} (h : isNumeral w = true) :
    read w = .ok [.word w] ∧
    (∀ before after items others, Opens before.toList → ended after.toList = true →
      read before = .ok items → read after = .ok others →
      read (before ++ w ++ after) = .ok (items ++ .word w :: others) ∧
      (after.toList.foldl Text.commented false = false →
        read ("[" ++ (before ++ w ++ after) ++ "]") = .ok [.list (items ++ .word w :: others)])) ∧
    (∀ before after, Opens before → ended after = true → ∃ boundary,
      scan (before ++ (w.toList ++ after)) = scan before ++ .word w.toList ::
        scanFrom (.idle boundary) (Place.start.advance (before ++ w.toList)) after) := by
  have hw := isWord_of_isNumeral h
  have hopens : Opens "".toList := ⟨rfl, rfl⟩
  refine ⟨?_, ?_, fun before after hbefore hafter => scan_between hw hbefore hafter⟩
  · have halone := read_between hw hopens rfl (rfl : read "" = .ok []) (rfl : read "" = .ok [])
    simpa using halone
  · intro before after items others hbefore hafter hitems hothers
    have hread := read_between hw hbefore hafter hitems hothers
    refine ⟨hread, fun hlive => read_bracketed hread ?_⟩
    rw [String.toList_append, String.toList_append, List.foldl_append, List.foldl_append,
      hbefore.2, commented_of_isWord hw, hlive]

/-- Two signs and a point, after a list that ends with a comment. -/
theorem numeral_read_whole_signs :
    isNumeral "-.5e-07" = true ∧ read "-.5e-07" = .ok [.word "-.5e-07"] ∧
    read ("[" ++ ("[] ;x\n " ++ "-.5e-07" ++ "\t+") ++ "]")
      = .ok [.list ([.list []] ++ .word "-.5e-07" :: [.word "+"])] := by
  have hnumeral : isNumeral "-.5e-07" = true := rfl
  have hbefore : read "[] ;x\n " = .ok [.list []] := rfl
  have hafter : read "\t+" = .ok [.word "+"] := rfl
  refine ⟨hnumeral, (numeral_read_whole hnumeral).1, ?_⟩
  exact ((numeral_read_whole hnumeral).2.1 _ _ _ _ ⟨rfl, rfl⟩ rfl hbefore hafter).2 rfl

end TurtleLogo
