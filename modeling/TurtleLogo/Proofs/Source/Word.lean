import TurtleLogo.Proofs.Source.Scan

set_option autoImplicit false

/-! # The words of a text

`IsWord` says which words scanning yields, by their characters alone. Every word of a scan is one
(`isWord_of_mem_scan`), and where no numeral is cut short each is scanned as itself
(`scanFrom_word`). -/

namespace TurtleLogo.Lexeme

variable {c d : Char} {cs rest spelt w : List Char} {place : Place} {mode : Mode}

/-! ## Shapes of words -/

/-- Whether a bare word spelt backwards by `spelt` goes on over all of `cs`. -/
def staysBare (spelt : List Char) : List Char → Bool
  | [] => true
  | c :: cs => continuesBare spelt c && staysBare (c :: spelt) cs

/-- Whether a bare word spelt backwards by `spelt` ends before `rest`. -/
def stopsBare (spelt : List Char) : List Char → Bool
  | [] => true
  | d :: _ => !continuesBare spelt d

/-- Whether `c` may be the first character of a bare word, with `following` after it. -/
def opensBare (c : Char) (following : List Char) : Bool :=
  !endsWord c && c != '"' && (!isOperatorMark c || c == '-' && startsNumeral following)

/-- The words that scanning yields. -/
inductive IsWord : List Char → Prop
  /-- A parenthesis or an operator of one character. -/
  | lone {c : Char} : isLone c = true → IsWord [c]
  /-- An operator of two characters. -/
  | pair {c d : Char} : isPair c [d] = true → IsWord [c, d]
  | quoted {cs : List Char} : (∀ d ∈ cs, endsWord d = false) → IsWord ('"' :: cs)
  /-- Any other word: a name, a numeral, perhaps with a sign. -/
  | bare {c : Char} {cs : List Char} : opensBare c cs = true → staysBare [c] cs = true →
      IsWord (c :: cs)

theorem opensBare_minus (following : List Char) :
    opensBare '-' following = startsNumeral following := rfl

theorem continuesBare_of_numeral (h : d.isDigit = true ∨ d = '.') (spelt : List Char) :
    continuesBare spelt d = true := by
  rcases h with h | rfl
  · simp [continuesBare, endsWord_of_isDigit h, isOperatorMark_of_isDigit h]
  · rfl

theorem staysBare_append (spelt cs ds : List Char) :
    staysBare spelt (cs ++ ds) = (staysBare spelt cs && staysBare (cs.reverse ++ spelt) ds) := by
  induction cs generalizing spelt with
  | nil => rfl
  | cons c cs ih => simp [staysBare, ih, Bool.and_assoc]

theorem endsWord_of_mem_staysBare (h : staysBare spelt cs = true) (hc : c ∈ cs) :
    endsWord c = false := by
  induction cs generalizing spelt with
  | nil => simp at hc
  | cons d cs ih =>
    obtain ⟨hd, hcs⟩ := Bool.and_eq_true_iff.mp h
    rcases List.mem_cons.mp hc with rfl | hc
    · exact endsWord_of_continuesBare hd
    · exact ih hcs hc

/-- A word that ends before `rest` does not owe its first character to it. -/
theorem opensBare_of_stopsBare (hopens : opensBare c (cs ++ rest) = true)
    (hstops : stopsBare spelt rest = true) : opensBare c cs = true := by
  have hrest : ∀ d ∈ rest.head?, d.isDigit = false ∧ d ≠ '.' := by
    intro d hd
    cases rest with
    | nil => simp at hd
    | cons d' rest =>
      obtain rfl : d' = d := by simpa using hd
      have hends : ¬ continuesBare spelt d' = true := by simpa [stopsBare] using hstops
      simpa [not_or] using mt (fun h => continuesBare_of_numeral h spelt) hends
  rwa [opensBare, startsNumeral_append hrest] at hopens

/-! ## Modes and what follows them -/

/-- What the characters before `rest` have begun can go on with it. -/
inductive Mode.Fits (rest : List Char) : Mode → Prop
  | idle (boundary : Bool) : Fits rest (.idle boundary)
  | comment (boundary : Bool) : Fits rest (.comment boundary)
  | pair {first : Char} : isPair first rest = true → Fits rest (.pair first)
  | quoted {spelt cs : List Char} : spelt.reverse = '"' :: cs → (∀ d ∈ cs, endsWord d = false) →
      Fits rest (.quoted spelt)
  | bare {spelt : List Char} {c : Char} {cs : List Char} : spelt.reverse = c :: cs →
      opensBare c (cs ++ rest) = true → staysBare [c] cs = true → Fits rest (.bare spelt)

theorem Begins.fits {boundary : Bool} {lexemes : List Lexeme} {next : Mode}
    (h : Begins boundary place c rest (lexemes, next)) : next.Fits rest := by
  cases h with
  | blank | opening | closing | lone => exact .idle _
  | comment => exact .comment _
  | pair hpair => exact .pair hpair
  | minus hc hboundary hnumeral =>
    subst hc
    exact .bare rfl ((opensBare_minus rest).trans hnumeral) rfl
  | quoted hc =>
    subst hc
    exact .quoted rfl (by simp)
  | bare hends hmark hquote =>
    refine .bare rfl ?_ rfl
    simp [opensBare, hends, hmark, hquote]

theorem Begins.isWord {boundary : Bool} {lexemes : List Lexeme} {next : Mode}
    (h : Begins boundary place c rest (lexemes, next)) (hw : .word w ∈ lexemes) : IsWord w := by
  cases h with
  | blank | opening | closing | comment | pair | minus | quoted | bare => simp at hw
  | lone hlone =>
    obtain rfl : w = [c] := by simpa using hw
    exact .lone hlone

theorem Mode.Fits.isWord_of_stopsBare (h : Mode.Fits rest (.bare spelt))
    (hstops : stopsBare spelt rest = true) : IsWord spelt.reverse := by
  cases h with
  | bare hspelt hopens hstays =>
    rw [hspelt]
    exact .bare (opensBare_of_stopsBare hopens hstops) hstays

theorem Mode.Fits.isWord_of_quoted (h : Mode.Fits rest (.quoted spelt)) :
    IsWord spelt.reverse := by
  cases h with
  | quoted hspelt hinside =>
    rw [hspelt]
    exact .quoted hinside

theorem Mode.Fits.step (h : mode.Fits (c :: rest)) (place : Place) :
    (step mode place c rest).2.Fits rest := by
  have hstep := steps mode place c rest
  generalize Lexeme.step mode place c rest = result at hstep ⊢
  cases hstep with
  | idle hbegins | quotedEnd _ hbegins | bareEnd _ hbegins => exact hbegins.fits
  | comment => exact .comment _
  | line | second => exact .idle _
  | quoted hc =>
    cases h with
    | quoted hspelt hinside =>
      refine .quoted (by rw [List.reverse_cons, hspelt, List.cons_append]) ?_
      simpa [or_imp, forall_and] using And.intro hinside hc
  | @bare spelt hc =>
    cases h with
    | @bare _ c' cs hspelt hopens hstays =>
      have hback : cs.reverse ++ [c'] = spelt := by
        rw [← List.reverse_cons, ← hspelt, List.reverse_reverse]
      refine .bare (by rw [List.reverse_cons, hspelt, List.cons_append]) ?_ ?_
      · rwa [List.append_assoc, List.singleton_append]
      · rw [staysBare_append, hback]
        simp [hstays, staysBare, hc]

theorem Mode.Fits.run (h : mode.Fits (cs ++ rest)) (place : Place) :
    (Lexeme.run mode place cs rest).2.Fits rest := by
  induction cs generalizing mode place with
  | nil => exact h
  | cons c cs ih => exact ih (h.step place) (place.next c)

theorem Mode.Fits.isWord_of_mem_step (h : mode.Fits (c :: rest))
    (hw : .word w ∈ (Lexeme.step mode place c rest).1) : IsWord w := by
  have hstep := steps mode place c rest
  generalize Lexeme.step mode place c rest = result at hstep hw
  cases hstep with
  | idle hbegins => exact hbegins.isWord hw
  | comment | line | quoted | bare => simp at hw
  | second =>
    cases h with
    | pair hpair =>
      obtain rfl : w = _ := by simpa using hw
      obtain ⟨d, ds, hd, hcases⟩ := isPair_eq_true.mp hpair
      obtain ⟨rfl, -⟩ := List.cons.inj hd
      exact .pair (isPair_eq_true.mpr ⟨_, [], rfl, hcases⟩)
  | quotedEnd _ hbegins =>
    rcases List.mem_cons.mp hw with hw | hw
    · obtain rfl : w = _ := by simpa using hw
      exact h.isWord_of_quoted
    · exact hbegins.isWord hw
  | bareEnd hc hbegins =>
    rcases List.mem_cons.mp hw with hw | hw
    · obtain rfl : w = _ := by simpa using hw
      exact h.isWord_of_stopsBare (by simp [stopsBare, hc])
    · exact hbegins.isWord hw

theorem isWord_of_mem_scanFrom (h : mode.Fits cs) (hw : .word w ∈ scanFrom mode place cs) :
    IsWord w := by
  induction cs generalizing mode place with
  | nil =>
    cases mode with
    | idle | comment | pair => simp [scanFrom, finish] at hw
    | quoted spelt =>
      obtain rfl : w = _ := by simpa [scanFrom, finish] using hw
      exact h.isWord_of_quoted
    | bare spelt =>
      obtain rfl : w = _ := by simpa [scanFrom, finish] using hw
      exact h.isWord_of_stopsBare rfl
  | cons c cs ih =>
    rcases List.mem_append.mp hw with hw | hw
    · exact h.isWord_of_mem_step hw
    · exact ih (h.step place) hw

theorem isWord_of_mem_scan (hw : .word w ∈ scan cs) : IsWord w :=
  isWord_of_mem_scanFrom (.idle true) hw

/-! ## Scanning a word back -/

/-- Whether `rest` ends whatever word is before it. -/
def ended : List Char → Bool
  | [] => true
  | d :: _ => endsWord d

theorem stopsBare_of_ended (h : ended rest = true) (spelt : List Char) :
    stopsBare spelt rest = true := by
  cases rest with
  | nil => rfl
  | cons d rest =>
    have hd : endsWord d = true := h
    simp [stopsBare, continuesBare, hd]

theorem detached_of_ended (h : ended rest = true) : detached rest = true := by
  cases rest with
  | nil => rfl
  | cons d rest =>
    have hne : ∀ {c}, endsWord c = false → d ≠ c := by
      rintro c hc rfl
      exact absurd h (by simp [ended, hc])
    have hdigit : d.isDigit = false :=
      Bool.eq_false_iff.mpr fun hdigit => hne (endsWord_of_isDigit hdigit) rfl
    simp [detached, hdigit, hne (c := '.') (by decide), hne (c := '=') (by decide),
      hne (c := '>') (by decide)]

theorem scanFrom_bare (hstays : staysBare spelt cs = true)
    (hstops : stopsBare (cs.reverse ++ spelt) rest = true) :
    scanFrom (.bare spelt) place (cs ++ rest)
      = .word (spelt.reverse ++ cs) :: scanFrom (.idle false) (place.advance cs) rest := by
  induction cs generalizing spelt place with
  | nil =>
    cases rest with
    | nil => simp [scanFrom, finish]
    | cons d rest =>
      have hd : continuesBare spelt d = false := by simpa [stopsBare] using hstops
      simp [scanFrom, step, hd, Place.advance]
  | cons c cs ih =>
    obtain ⟨hc, hcs⟩ : continuesBare spelt c = true ∧ staysBare (c :: spelt) cs = true := by
      simpa [staysBare] using hstays
    have hstep : step (.bare spelt) place c (cs ++ rest) = ([], .bare (c :: spelt)) := by
      simp [step, hc]
    rw [List.cons_append, scanFrom_cons hstep, ih hcs (by simpa using hstops)]
    simp [Place.advance]

theorem scanFrom_quoted (hinside : ∀ d ∈ cs, endsWord d = false) (hrest : ended rest = true) :
    scanFrom (.quoted spelt) place (cs ++ rest)
      = .word (spelt.reverse ++ cs) :: scanFrom (.idle false) (place.advance cs) rest := by
  induction cs generalizing spelt place with
  | nil =>
    cases rest with
    | nil => simp [scanFrom, finish]
    | cons d rest =>
      have hd : endsWord d = true := hrest
      simp [scanFrom, step, hd, Place.advance]
  | cons c cs ih =>
    obtain ⟨hc, hcs⟩ := List.forall_mem_cons.mp hinside
    have hstep : step (.quoted spelt) place c (cs ++ rest) = ([], .quoted (c :: spelt)) := by
      simp [step, hc]
    rw [List.cons_append, scanFrom_cons hstep, ih hcs]
    simp [Place.advance]

theorem begin_of_endsWord (h : endsWord c = false) (boundary : Bool) (place : Place)
    (rest : List Char) :
    begin boundary place c rest =
      if isPair c rest then ([], .pair c)
      else if c = '-' && boundary && startsNumeral rest then ([], .bare [c])
      else if isOperatorMark c then ([.word [c]], .idle false)
      else if c = '"' then ([], .quoted [c])
      else ([], .bare [c]) := by
  simp only [endsWord, Bool.or_eq_false_iff, beq_eq_false_iff_ne] at h
  obtain ⟨⟨⟨⟨⟨hblank, hopening⟩, hclosing⟩, hopen⟩, hclose⟩, hsemicolon⟩ := h
  rw [begin, if_neg (by simp [hblank]), if_neg hsemicolon, if_neg hopening, if_neg hclosing,
    if_neg hopen, if_neg hclose]

theorem begin_lone (h : isLone c = true) (hrest : detached rest = true) (place : Place) :
    begin true place c rest = ([.word [c]], .idle (c == '(')) := by
  have hpair : isPair c rest = false := (isPair_detached hrest c []).trans (by simp [isPair])
  have hnumeral : startsNumeral rest = false := startsNumeral_detached hrest []
  rcases isLone_cases h with rfl | rfl | hmark
  · rfl
  · rfl
  · have hends := (isOperatorMark_cases hmark).1
    have hopen : (c == '(') = false := by
      refine beq_eq_false_iff_ne.mpr ?_
      rintro rfl
      exact absurd hends (by decide)
    rw [begin_of_endsWord hends, hpair, hnumeral, hmark, hopen]
    simp

theorem begin_bare (h : opensBare c rest = true) (place : Place) :
    begin true place c rest = ([], .bare [c]) := by
  simp only [opensBare, Bool.and_eq_true, Bool.not_eq_true', bne_iff_ne] at h
  obtain ⟨⟨hends, hquote⟩, hstart⟩ := h
  rw [begin_of_endsWord hends]
  by_cases hmark : isOperatorMark c = true
  · obtain ⟨rfl, hnumeral⟩ : c = '-' ∧ startsNumeral rest = true := by simpa [hmark] using hstart
    simp [isPair, hnumeral]
  · have hpair : isPair c rest = false :=
      Bool.eq_false_iff.mpr (mt isOperatorMark_of_isPair hmark)
    have hminus : c ≠ '-' := by
      rintro rfl
      exact hmark (by decide)
    simp [hpair, hminus, hmark, hquote]

/-- A word is scanned as itself where it may begin and is not run on. -/
theorem scanFrom_word (hw : IsWord w) (hrest : ended rest = true) (place : Place) :
    ∃ boundary, scanFrom (.idle true) place (w ++ rest)
      = .word w :: scanFrom (.idle boundary) (place.advance w) rest := by
  cases hw with
  | @lone c h =>
    exact ⟨c == '(', scanFrom_idle (begin_lone h (detached_of_ended hrest) place)⟩
  | @pair c d h =>
    obtain ⟨d', ds, hd, hcases⟩ := isPair_eq_true.mp h
    have hpair : isPair c (d :: rest) = true :=
      isPair_eq_true.mpr ⟨d', rest, by rw [(List.cons.inj hd).1], hcases⟩
    have hends := endsWord_fst_of_isPair hpair
    have hbegin : begin true place c (d :: rest) = ([], .pair c) := by
      rw [begin_of_endsWord hends, if_pos hpair]
    exact ⟨false, scanFrom_idle hbegin⟩
  | @quoted cs hinside =>
    have hbegin : begin true place '"' (cs ++ rest) = ([], .quoted ['"']) := by
      rw [begin_of_endsWord (by decide)]
      simp [isPair, isOperatorMark]
    exact ⟨false, (scanFrom_idle hbegin).trans (scanFrom_quoted hinside hrest)⟩
  | @bare c cs hopens hstays =>
    have hopens' : opensBare c (cs ++ rest) = true := by
      rwa [opensBare, startsNumeral_detached (detached_of_ended hrest)]
    have hstops := stopsBare_of_ended hrest (cs.reverse ++ [c])
    exact ⟨false, (scanFrom_idle (begin_bare hopens' place)).trans (scanFrom_bare hstays hstops)⟩

end TurtleLogo.Lexeme
