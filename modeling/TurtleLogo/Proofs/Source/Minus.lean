import Mathlib.Data.List.DropRight
import TurtleLogo.Proofs.Source.Content

set_option autoImplicit false

/-! # Minus signs

A minus sign before a numeral belongs to it where the flag of the scan says that nothing, a blank
or an opening bracket or parenthesis stands before the sign. A closing bracket leaves the flag as
it is, so what counts is the text without the closing brackets at its end (`flag_modeAfter`). -/

namespace TurtleLogo.Lexeme

variable {c : Char} {cs rest spelt before after : List Char} {place : Place} {mode : Mode}
  {boundary : Bool}

/-! ## The flag -/

/-- Whether a minus sign right after the character may open a numeral. -/
def isBoundary (c : Char) : Bool :=
  Text.isBlank c || c == '[' || c == '('

/-- Whether the text is empty or ends with a blank or an opening bracket or parenthesis. -/
def atBoundary (cs : List Char) : Bool :=
  cs.getLast?.all isBoundary

/-- The flag after `c`. -/
def nextBoundary (boundary : Bool) (c : Char) : Bool :=
  if c = ']' then boundary else isBoundary c

/-- The flag of a mode. None is up while a word is open. -/
def Mode.flag : Mode → Bool
  | .idle boundary => boundary
  | .comment boundary => boundary
  | _ => false

theorem foldl_nextBoundary (cs : List Char) :
    cs.foldl nextBoundary true = atBoundary (cs.rdropWhile (· == ']')) := by
  induction cs using List.reverseRecOn with
  | nil => rfl
  | append_singleton cs c ih =>
    rw [List.foldl_concat, ih, List.rdropWhile_concat, nextBoundary]
    by_cases hc : c = ']'
    · simp [hc]
    · simp [hc, atBoundary]

theorem nextBoundary_of_endsWord (h : endsWord c = false) (boundary : Bool) :
    nextBoundary boundary c = false := by
  simp only [endsWord, Bool.or_eq_false_iff, beq_eq_false_iff_ne] at h
  obtain ⟨⟨⟨⟨⟨hblank, hopening⟩, hclosing⟩, hopen⟩, -⟩, -⟩ := h
  simp [nextBoundary, isBoundary, hblank, hopening, hclosing, hopen]

theorem Begins.flag {lexemes : List Lexeme} {next : Mode}
    (h : Begins boundary place c rest (lexemes, next)) (hnext : next.inComment = false) :
    next.flag = nextBoundary boundary c := by
  cases h with
  | blank hblank =>
    have hc : c ≠ ']' := by
      rintro rfl
      exact absurd hblank (by decide)
    simp [Mode.flag, nextBoundary, isBoundary, hc, hblank]
  | comment => simp [Mode.inComment] at hnext
  | opening hc | closing hc =>
    subst hc
    rfl
  | lone hlone =>
    obtain ⟨hblank, hopening, hclosing, -⟩ := kept_of_isLone hlone
    simp [Mode.flag, nextBoundary, isBoundary, hblank, hopening, hclosing]
  | pair hpair =>
    exact (nextBoundary_of_endsWord (endsWord_fst_of_isPair hpair) boundary).symm
  | minus hc | quoted hc =>
    subst hc
    rfl
  | bare hends => exact (nextBoundary_of_endsWord hends boundary).symm

/-- A line feed puts the flag up, so it does not matter what the flag was before a comment. -/
theorem Mode.Fits.flag (h : mode.Fits (c :: rest))
    (hmode : mode.inComment = false → mode.flag = boundary) (place : Place)
    (hnext : (Lexeme.step mode place c rest).2.inComment = false) :
    (Lexeme.step mode place c rest).2.flag = nextBoundary boundary c := by
  have hstep := steps mode place c rest
  generalize Lexeme.step mode place c rest = result at hstep hnext ⊢
  cases hstep with
  | idle hbegins | quotedEnd _ hbegins | bareEnd _ hbegins =>
    rw [← hmode rfl]
    exact hbegins.flag hnext
  | comment => simp [Mode.inComment] at hnext
  | line hc =>
    subst hc
    rfl
  | second =>
    cases h with
    | pair hpair => exact (nextBoundary_of_endsWord (endsWord_snd_of_isPair hpair) boundary).symm
  | quoted hc => exact (nextBoundary_of_endsWord hc boundary).symm
  | bare hc => exact (nextBoundary_of_endsWord (endsWord_of_continuesBare hc) boundary).symm

theorem Mode.Fits.flag_run (h : mode.Fits (cs ++ rest))
    (hmode : mode.inComment = false → mode.flag = boundary) (place : Place)
    (hlast : (Lexeme.run mode place cs rest).2.inComment = false) :
    (Lexeme.run mode place cs rest).2.flag = cs.foldl nextBoundary boundary := by
  induction cs generalizing mode boundary place with
  | nil => exact hmode hlast
  | cons c cs ih => exact ih (h.step place) (h.flag hmode place) (place.next c) hlast

/-- The mode after a text. -/
def modeAfter (cs : List Char) : Mode :=
  (run (.idle true) Place.start cs []).2

theorem flag_modeAfter (h : (modeAfter cs).inComment = false) :
    (modeAfter cs).flag = atBoundary (cs.rdropWhile (· == ']')) := by
  have hfits : Mode.Fits (cs ++ []) (.idle true) := .idle true
  rw [← foldl_nextBoundary]
  exact hfits.flag_run (fun _ => rfl) Place.start h

/-! ## Scanning a minus sign -/

/-- Whether a minus sign is outside comments and quoted words in the mode, and not the sign of an
exponent. -/
def Mode.signLive : Mode → Bool
  | .comment _ => false
  | .quoted _ => false
  | .bare spelt => !opensExponent spelt
  | _ => true

/-- The minus sign between the texts is scanned as the first character of a numeral. -/
def ScansNumeral (before after : List Char) : Prop :=
  ∃ digits rest, after = digits ++ rest ∧ startsNumeral digits = true ∧
    scan (before ++ '-' :: after) = scan before ++ .word ('-' :: digits) ::
      scanFrom (.idle false) (Place.start.advance (before ++ '-' :: digits)) rest

/-- The minus sign between the texts is scanned as a word of its own. -/
def ScansOperator (before after : List Char) : Prop :=
  scan (before ++ '-' :: after) = scan before ++ .word ['-'] ::
    scanFrom (.idle false) (Place.start.advance (before ++ ['-'])) after

theorem begin_minus (boundary : Bool) (place : Place) (rest : List Char) :
    begin boundary place '-' rest =
      if boundary && startsNumeral rest then ([], .bare ['-'])
      else ([.word ['-']], .idle false) := by
  rw [begin_of_endsWord (by decide), if_neg (by simp [isPair])]
  simp [isOperatorMark]

theorem exists_staysBare (spelt cs : List Char) :
    ∃ word rest, cs = word ++ rest ∧ staysBare spelt word = true ∧
      stopsBare (word.reverse ++ spelt) rest = true := by
  induction cs generalizing spelt with
  | nil => exact ⟨[], [], rfl, rfl, rfl⟩
  | cons c cs ih =>
    by_cases hc : continuesBare spelt c = true
    · obtain ⟨word, rest, rfl, hstays, hstops⟩ := ih (c :: spelt)
      exact ⟨c :: word, rest, rfl, by simp [staysBare, hc, hstays], by simpa using hstops⟩
    · exact ⟨[], c :: cs, rfl, rfl, by simpa [stopsBare] using hc⟩

/-- A live sign is taken where no word is open. -/
theorem scanFrom_sign (hmode : mode.Fits ('-' :: rest)) (hlive : mode.signLive = true)
    (place : Place) :
    scanFrom mode place ('-' :: rest)
      = finish mode ++ scanFrom (.idle mode.flag) place ('-' :: rest) := by
  cases hmode with
  | idle boundary => rfl
  | comment | quoted => simp [Mode.signLive] at hlive
  | pair hpair => simp [isPair_eq_true] at hpair
  | @bare spelt =>
    have hends : continuesBare spelt '-' = false := by
      simpa [continuesBare, isOperatorMark, endsWord, Mode.signLive] using fun _ => hlive
    simp [scanFrom, step, hends, finish, Mode.flag]

/-- Before the sign everything is scanned as if nothing followed. -/
theorem scan_minus (hlive : (modeAfter before).signLive = true) (after : List Char) :
    scan (before ++ '-' :: after) = scan before ++
      scanFrom (.idle (modeAfter before).flag) (Place.start.advance before) ('-' :: after) := by
  have hrun : run (.idle true) Place.start before ('-' :: after)
      = run (.idle true) Place.start before [] := run_detached rfl _ _ _
  have hmode : (modeAfter before).Fits ('-' :: after) := by
    have hfits : Mode.Fits (before ++ '-' :: after) (.idle true) := .idle true
    rw [modeAfter, ← hrun]
    exact hfits.run Place.start
  have hbefore : scan before
      = (run (.idle true) Place.start before []).1 ++ finish (modeAfter before) :=
    scanFrom_eq_run ..
  rw [hbefore, scan, scanFrom_append, hrun, List.append_assoc, ← modeAfter,
    scanFrom_sign hmode hlive]

theorem scansNumeral_of_flag (hlive : (modeAfter before).signLive = true)
    (hflag : (modeAfter before).flag = true) (hafter : startsNumeral after = true) :
    ScansNumeral before after := by
  obtain ⟨digits, rest, rfl, hstays, hstops⟩ := exists_staysBare ['-'] after
  have hdigits : startsNumeral digits = true :=
    opensBare_of_stopsBare ((opensBare_minus _).trans hafter) hstops
  have hbegin := begin_minus true (Place.start.advance before) (digits ++ rest)
  rw [hafter, Bool.and_self, if_pos rfl] at hbegin
  refine ⟨digits, rest, rfl, hdigits, ?_⟩
  rw [scan_minus hlive, hflag, scanFrom_idle hbegin, List.nil_append, scanFrom_bare hstays hstops]
  simp [Place.advance]

theorem scansOperator_of_flag (hlive : (modeAfter before).signLive = true)
    (h : ((modeAfter before).flag && startsNumeral after) = false) :
    ScansOperator before after := by
  have hbegin := begin_minus (modeAfter before).flag (Place.start.advance before) after
  rw [h, if_neg (by decide)] at hbegin
  rw [ScansOperator, scan_minus hlive, scanFrom_idle hbegin]
  simp [Place.advance]

/-- A numeral has more characters than its sign. -/
theorem ScansOperator.not_scansNumeral (h : ScansOperator before after) :
    ¬ ScansNumeral before after := by
  rintro ⟨digits, rest, -, hdigits, hscan⟩
  rw [h] at hscan
  obtain ⟨hword, -⟩ := List.cons.inj (List.append_cancel_left hscan)
  obtain rfl : [] = digits := by simpa using hword
  exact absurd hdigits (by decide)

theorem scansNumeral_iff (hlive : (modeAfter before).signLive = true) :
    ScansNumeral before after ↔ (modeAfter before).flag = true ∧ startsNumeral after = true := by
  refine ⟨fun h => ?_, fun h => scansNumeral_of_flag hlive h.1 h.2⟩
  by_contra hnot
  refine (scansOperator_of_flag hlive ?_).not_scansNumeral h
  simpa using hnot

theorem scansOperator_iff (hlive : (modeAfter before).signLive = true) :
    ScansOperator before after ↔ ¬ ScansNumeral before after := by
  refine ⟨ScansOperator.not_scansNumeral, fun h => scansOperator_of_flag hlive ?_⟩
  rw [scansNumeral_iff hlive] at h
  simpa using h

/-! ## The rule -/

theorem Mode.inComment_of_signLive (h : mode.signLive = true) : mode.inComment = false := by
  cases mode <;> simp_all [signLive, inComment]

theorem atBoundary_of_getLast? (h : cs.getLast? = some ']') : atBoundary cs = false := by
  rw [atBoundary, h]
  decide

theorem rdropWhile_of_getLast? (h : cs.getLast? ≠ some ']') :
    cs.rdropWhile (· == ']') = cs := by
  rw [List.rdropWhile_eq_self_iff]
  intro hne hlast
  rw [List.getLast?_eq_some_getLast hne] at h
  exact h (congrArg some (eq_of_beq hlast))

/-- A minus sign outside comments and quoted words that is not the sign of an exponent opens a
numeral exactly where a numeral follows it and the text before it, without the closing brackets at
its end, is empty or ends with a blank or an opening bracket or parenthesis. Elsewhere it is a word
of its own. So the character right before the sign decides, unless that is a closing bracket. -/
theorem minus_opens_numeral_iff (before after : List Char)
    (hlive : (modeAfter before).signLive = true) :
    (ScansNumeral before after ↔
      startsNumeral after = true ∧ atBoundary (before.rdropWhile (· == ']')) = true) ∧
    (ScansOperator before after ↔ ¬ ScansNumeral before after) ∧
    (modeAfter before).flag = atBoundary (before.rdropWhile (· == ']')) ∧
    ((modeAfter before).flag = atBoundary before ↔
      ¬ (before.getLast? = some ']' ∧ atBoundary (before.rdropWhile (· == ']')) = true)) ∧
    ((ScansNumeral before after ↔ startsNumeral after = true ∧ atBoundary before = true) ↔
      ¬ (startsNumeral after = true ∧ before.getLast? = some ']' ∧
        atBoundary (before.rdropWhile (· == ']')) = true)) := by
  have hflag := flag_modeAfter (Mode.inComment_of_signLive hlive)
  have hnumeral : ScansNumeral before after ↔
      startsNumeral after = true ∧ atBoundary (before.rdropWhile (· == ']')) = true := by
    rw [scansNumeral_iff hlive, hflag, and_comm]
  refine ⟨hnumeral, scansOperator_iff hlive, hflag, ?_⟩
  rw [hnumeral, hflag]
  by_cases hlast : before.getLast? = some ']'
  · simp [hlast, atBoundary_of_getLast? hlast]
  · simp [hlast, rdropWhile_of_getLast? hlast]

/-- After a blank the sign in `7 -2` belongs to the second numeral. -/
theorem minus_opens_numeral_iff_after_blank :
    (modeAfter ['7', ' ']).signLive = true ∧ ScansNumeral ['7', ' '] ['2'] :=
  ⟨rfl, (minus_opens_numeral_iff ['7', ' '] ['2'] rfl).1.mpr ⟨rfl, rfl⟩⟩

/-- After an empty list the sign of a numeral belongs to it, though a closing bracket stands right
before it. -/
theorem minus_after_empty_list :
    (modeAfter ['[', ']']).signLive = true ∧
    ¬ (ScansNumeral ['[', ']'] ['5'] ↔
      startsNumeral ['5'] = true ∧ atBoundary ['[', ']'] = true) ∧
    read "[]-5" = .ok [.list [], .word "-5"] := by
  have hscans : ScansNumeral ['[', ']'] ['5'] := scansNumeral_of_flag rfl rfl rfl
  refine ⟨rfl, fun h => ?_, rfl⟩
  exact absurd (h.mp hscans).2 (by decide)

end TurtleLogo.Lexeme
