import TurtleLogo.Source.Lexeme

set_option autoImplicit false

/-! # Scanning character by character

What one character can do to a scan is said once, by `Begins` where no word is open and by `Steps`
in general. `run` scans the beginning of a text, and the scan of the whole goes on from there
(`scanFrom_append`). Of what follows, only a digit, an equals sign or a greater-than sign can
change what is scanned before it (`run_detached`). -/

namespace TurtleLogo.Lexeme

variable {c d : Char} {cs rest : List Char} {spelt : List Char} {place : Place} {mode : Mode}

/-! ## Character classes -/

/-- Whether the character makes a word by itself, unless it goes on. -/
def isLone (c : Char) : Bool :=
  c == '(' || c == ')' || isOperatorMark c

theorem isOperatorMark_cases (h : isOperatorMark c = true) :
    endsWord c = false ∧ c.isDigit = false := by
  simp only [isOperatorMark, Bool.or_eq_true_iff, beq_iff_eq] at h
  rcases h with (((((((rfl | rfl) | rfl) | rfl) | rfl) | rfl) | rfl) | rfl) | rfl <;> decide

theorem isLone_cases (h : isLone c = true) :
    c = '(' ∨ c = ')' ∨ isOperatorMark c = true := by
  simpa [isLone, or_assoc] using h

theorem ne_of_isDigit (hc : c.isDigit = true) (hd : d.isDigit = false) : c ≠ d := by
  rintro rfl
  rw [hc] at hd
  exact absurd hd (by decide)

theorem isBlank_of_isDigit (h : c.isDigit = true) : Text.isBlank c = false := by
  obtain ⟨hlow, hhigh⟩ : 48 ≤ c.val ∧ c.val ≤ 57 := by simpa [Char.isDigit] using h
  have hlow' : 48 ≤ c.toNat := UInt32.le_iff_toNat_le.mp hlow
  have hhigh' : c.toNat ≤ 57 := UInt32.le_iff_toNat_le.mp hhigh
  simp only [Text.isBlank, Text.inRanges, Text.blankRanges, List.any_cons, List.any_nil,
    Bool.or_false, Bool.or_eq_false_iff, Bool.and_eq_false_iff, decide_eq_false_iff_not]
  omega

theorem endsWord_of_isDigit (h : c.isDigit = true) : endsWord c = false := by
  have hne : ∀ {d : Char}, d.isDigit = false → (c == d) = false :=
    fun hd => beq_eq_false_iff_ne.mpr (ne_of_isDigit h hd)
  rw [endsWord, isBlank_of_isDigit h, hne (by decide), hne (by decide), hne (by decide),
    hne (by decide), hne (by decide)]
  rfl

theorem isOperatorMark_of_isDigit (h : c.isDigit = true) : isOperatorMark c = false := by
  cases hmark : isOperatorMark c with
  | false => rfl
  | true => exact absurd h (by simp [(isOperatorMark_cases hmark).2])

theorem isPair_eq_true :
    isPair c rest = true ↔
      ∃ d ds, rest = d :: ds ∧ (c = '<' ∧ (d = '=' ∨ d = '>') ∨ c = '>' ∧ d = '=') := by
  unfold isPair
  split
  · simp
  · simp
  · next hlt hgt =>
    simp only [Bool.false_eq_true, false_iff]
    rintro ⟨d, ds, rfl, ⟨rfl, -⟩ | ⟨rfl, -⟩⟩
    · exact hlt d ds rfl rfl
    · exact hgt d ds rfl rfl

theorem isOperatorMark_of_isPair (h : isPair c rest = true) : isOperatorMark c = true := by
  obtain ⟨d, ds, -, ⟨rfl, -⟩ | ⟨rfl, -⟩⟩ := isPair_eq_true.mp h <;> rfl

theorem endsWord_fst_of_isPair (h : isPair c rest = true) : endsWord c = false :=
  (isOperatorMark_cases (isOperatorMark_of_isPair h)).1

theorem endsWord_snd_of_isPair (h : isPair c (d :: rest) = true) : endsWord d = false := by
  obtain ⟨d', ds, hd, hcases⟩ := isPair_eq_true.mp h
  obtain ⟨rfl, -⟩ := List.cons.inj hd
  rcases hcases with ⟨-, rfl | rfl⟩ | ⟨-, rfl⟩ <;> decide

theorem startsNumeral_cons (hc : c ≠ '.') : startsNumeral (c :: cs) = c.isDigit := by
  unfold startsNumeral
  split
  · next heq => exact absurd (List.cons.inj heq).1 hc
  · next heq => rw [(List.cons.inj heq).1]
  · next heq => exact absurd heq (List.cons_ne_nil c cs)

theorem startsNumeral_append (hrest : ∀ d ∈ rest.head?, d.isDigit = false ∧ d ≠ '.')
    (cs : List Char) : startsNumeral (cs ++ rest) = startsNumeral cs := by
  cases rest with
  | nil => rw [List.append_nil]
  | cons d rest =>
    obtain ⟨hdigit, hpoint⟩ := hrest d rfl
    cases cs with
    | nil => exact (startsNumeral_cons hpoint).trans hdigit
    | cons c cs =>
      by_cases hc : c = '.'
      · subst hc
        cases cs with
        | nil => exact hdigit
        | cons c' cs => rfl
      · rw [List.cons_append, startsNumeral_cons hc, startsNumeral_cons hc]

theorem endsWord_of_continuesBare (h : continuesBare spelt c = true) : endsWord c = false := by
  simpa using (Bool.and_eq_true_iff.mp h).1

/-! ## One character -/

/-- What taking `c` can give where no word is open: lexemes and the next mode. -/
inductive Begins (boundary : Bool) (place : Place) (c : Char) (rest : List Char) :
    List Lexeme × Mode → Prop
  | blank : Text.isBlank c = true → Begins boundary place c rest ([], .idle true)
  | comment : c = ';' → Begins boundary place c rest ([], .comment boundary)
  | opening : c = '[' → Begins boundary place c rest ([.opening place], .idle true)
  | closing : c = ']' → Begins boundary place c rest ([.closing place], .idle boundary)
  | lone : isLone c = true → isPair c rest = false →
      (c = '-' → boundary = true → startsNumeral rest = false) →
      Begins boundary place c rest ([.word [c]], .idle (c == '('))
  | pair : isPair c rest = true → Begins boundary place c rest ([], .pair c)
  | minus : c = '-' → boundary = true → startsNumeral rest = true →
      Begins boundary place c rest ([], .bare [c])
  | quoted : c = '"' → Begins boundary place c rest ([], .quoted [c])
  | bare : endsWord c = false → isOperatorMark c = false → c ≠ '"' →
      Begins boundary place c rest ([], .bare [c])

theorem begins (boundary : Bool) (place : Place) (c : Char) (rest : List Char) :
    Begins boundary place c rest (begin boundary place c rest) := by
  unfold begin
  by_cases hblank : Text.isBlank c = true
  · rw [if_pos hblank]
    exact .blank hblank
  by_cases hsemicolon : c = ';'
  · rw [if_neg hblank, if_pos hsemicolon]
    exact .comment hsemicolon
  by_cases hopening : c = '['
  · rw [if_neg hblank, if_neg hsemicolon, if_pos hopening]
    exact .opening hopening
  by_cases hclosing : c = ']'
  · rw [if_neg hblank, if_neg hsemicolon, if_neg hopening, if_pos hclosing]
    exact .closing hclosing
  rw [if_neg hblank, if_neg hsemicolon, if_neg hopening, if_neg hclosing]
  have hpair : ∀ {d}, isOperatorMark d = false → isPair d rest = false := fun hd =>
    Bool.eq_false_iff.mpr fun h => absurd (isOperatorMark_of_isPair h) (by simp [hd])
  by_cases hopen : c = '('
  · subst hopen
    exact .lone rfl (hpair (by decide)) (fun h => absurd h (by decide))
  by_cases hclose : c = ')'
  · subst hclose
    exact .lone rfl (hpair (by decide)) (fun h => absurd h (by decide))
  rw [if_neg hopen, if_neg hclose]
  by_cases hpair : isPair c rest = true
  · rw [if_pos hpair]
    exact .pair hpair
  by_cases hminus : (c = '-' && boundary && startsNumeral rest) = true
  · rw [if_neg hpair, if_pos hminus]
    simp only [Bool.and_eq_true, decide_eq_true_eq] at hminus
    exact .minus hminus.1.1 hminus.1.2 hminus.2
  rw [if_neg hpair, if_neg hminus]
  by_cases hmark : isOperatorMark c = true
  · rw [if_pos hmark, ← beq_eq_false_iff_ne.mpr hopen]
    exact .lone (by simp [isLone, hmark]) (Bool.eq_false_iff.mpr hpair) (by simpa using hminus)
  rw [if_neg hmark]
  by_cases hquote : c = '"'
  · rw [if_pos hquote]
    exact .quoted hquote
  rw [if_neg hquote]
  refine .bare ?_ (Bool.eq_false_iff.mpr hmark) hquote
  simp [endsWord, Bool.eq_false_iff.mpr hblank, hopening, hclosing, hopen, hclose, hsemicolon]

/-- What taking `c` can give in a mode. A word that does not go on with `c` is complete before what
`c` begins. -/
inductive Steps (place : Place) (c : Char) (rest : List Char) : Mode → List Lexeme × Mode → Prop
  | idle {boundary : Bool} {result : List Lexeme × Mode} :
      Begins boundary place c rest result → Steps place c rest (.idle boundary) result
  | comment {boundary : Bool} :
      c ≠ '\n' → Steps place c rest (.comment boundary) ([], .comment boundary)
  | line {boundary : Bool} : c = '\n' → Steps place c rest (.comment boundary) ([], .idle true)
  | second {first : Char} :
      Steps place c rest (.pair first) ([.word [first, c]], .idle false)
  | quoted {spelt : List Char} :
      endsWord c = false → Steps place c rest (.quoted spelt) ([], .quoted (c :: spelt))
  | bare {spelt : List Char} :
      continuesBare spelt c = true → Steps place c rest (.bare spelt) ([], .bare (c :: spelt))
  | quotedEnd {spelt : List Char} {lexemes : List Lexeme} {next : Mode} :
      endsWord c = true → Begins false place c rest (lexemes, next) →
      Steps place c rest (.quoted spelt) (.word spelt.reverse :: lexemes, next)
  | bareEnd {spelt : List Char} {lexemes : List Lexeme} {next : Mode} :
      continuesBare spelt c = false → Begins false place c rest (lexemes, next) →
      Steps place c rest (.bare spelt) (.word spelt.reverse :: lexemes, next)

theorem steps (mode : Mode) (place : Place) (c : Char) (rest : List Char) :
    Steps place c rest mode (step mode place c rest) := by
  cases mode with
  | idle boundary => exact .idle (begins boundary place c rest)
  | comment boundary =>
    simp only [step]
    split
    · next h => exact .line h
    · next h => exact .comment h
  | pair first => exact .second
  | quoted spelt =>
    simp only [step]
    split
    · next h => exact .quotedEnd h (begins false place c rest)
    · next h => exact .quoted (Bool.eq_false_iff.mpr h)
  | bare spelt =>
    simp only [step]
    split
    · next h => exact .bare h
    · next h => exact .bareEnd (Bool.eq_false_iff.mpr h) (begins false place c rest)

/-! ## Several characters -/

theorem scanFrom_cons {lexemes : List Lexeme} {next : Mode}
    (h : step mode place c cs = (lexemes, next)) :
    scanFrom mode place (c :: cs) = lexemes ++ scanFrom next (place.next c) cs := by
  rw [scanFrom, h]

theorem scanFrom_idle {boundary : Bool} {lexemes : List Lexeme} {next : Mode}
    (h : begin boundary place c cs = (lexemes, next)) :
    scanFrom (.idle boundary) place (c :: cs) = lexemes ++ scanFrom next (place.next c) cs := by
  rw [scanFrom, step, h]

/-- Takes the characters `cs`, which `rest` follows: the lexemes that are complete then, and the
mode after them. -/
def run (mode : Mode) (place : Place) : List Char → List Char → List Lexeme × Mode
  | [], _ => ([], mode)
  | c :: cs, rest =>
    let (lexemes, next) := step mode place c (cs ++ rest)
    let (more, last) := run next (place.next c) cs rest
    (lexemes ++ more, last)

theorem run_append (mode : Mode) (place : Place) (cs ds rest : List Char) :
    run mode place (cs ++ ds) rest
      = ((run mode place cs (ds ++ rest)).1
          ++ (run (run mode place cs (ds ++ rest)).2 (place.advance cs) ds rest).1,
        (run (run mode place cs (ds ++ rest)).2 (place.advance cs) ds rest).2) := by
  induction cs generalizing mode place with
  | nil => rfl
  | cons c cs ih => simp only [List.cons_append, run, List.append_assoc, ih, Place.advance,
      List.foldl_cons]

theorem scanFrom_append (mode : Mode) (place : Place) (cs rest : List Char) :
    scanFrom mode place (cs ++ rest)
      = (run mode place cs rest).1
        ++ scanFrom (run mode place cs rest).2 (place.advance cs) rest := by
  induction cs generalizing mode place with
  | nil => rfl
  | cons c cs ih => simp only [List.cons_append, scanFrom, run, ih, List.append_assoc,
      Place.advance, List.foldl_cons]

theorem scanFrom_eq_run (mode : Mode) (place : Place) (cs : List Char) :
    scanFrom mode place cs = (run mode place cs []).1 ++ finish (run mode place cs []).2 := by
  have happend := scanFrom_append mode place cs []
  rwa [List.append_nil] at happend

/-- No numeral and no operator that begins before `rest` goes on into it. -/
def detached : List Char → Bool
  | [] => true
  | d :: _ => !d.isDigit && d != '.' && d != '=' && d != '>'

theorem isPair_detached (hrest : detached rest = true) (c : Char) (cs : List Char) :
    isPair c (cs ++ rest) = isPair c cs := by
  rw [Bool.eq_iff_iff, isPair_eq_true, isPair_eq_true]
  cases cs with
  | cons d cs => simp
  | nil =>
    cases rest with
    | nil => rfl
    | cons d rest =>
      simp only [detached, Bool.and_eq_true, bne_iff_ne] at hrest
      simp [hrest.1.2, hrest.2]

theorem startsNumeral_detached (hrest : detached rest = true) (cs : List Char) :
    startsNumeral (cs ++ rest) = startsNumeral cs := by
  refine startsNumeral_append ?_ cs
  rintro d hd
  cases rest with
  | nil => simp at hd
  | cons d' rest =>
    obtain rfl : d' = d := by simpa using hd
    simp only [detached, Bool.and_eq_true, bne_iff_ne, Bool.not_eq_true'] at hrest
    exact hrest.1.1

theorem step_detached (hrest : detached rest = true) (mode : Mode) (place : Place) (c : Char)
    (cs : List Char) : step mode place c (cs ++ rest) = step mode place c cs := by
  have hbegin : ∀ boundary, begin boundary place c (cs ++ rest) = begin boundary place c cs := by
    intro boundary
    rw [begin, begin, isPair_detached hrest, startsNumeral_detached hrest]
  cases mode <;> simp only [step, hbegin]

/-- What is scanned before `rest` is what is scanned where nothing follows. -/
theorem run_detached (hrest : detached rest = true) (mode : Mode) (place : Place)
    (cs : List Char) : run mode place cs rest = run mode place cs [] := by
  induction cs generalizing mode place with
  | nil => rfl
  | cons c cs ih => simp only [run, step_detached hrest, List.append_nil, ih]

end TurtleLogo.Lexeme
