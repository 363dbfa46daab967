import TurtleLogo.Atom.Print
import TurtleLogo.Source.Read
import TurtleLogo.Proofs.Source.Word

set_option autoImplicit false

/-! # What reading keeps of a text

Reading keeps the characters that are neither blank nor in a comment, all of them and in order. At
every moment of a scan they are those of the complete lexemes and of the word that is open
(`spell_scanFrom`), and gathering lexemes into atoms keeps them (`spell_of_gather`). -/

namespace TurtleLogo

/-! ## Comments and blanks -/

namespace Text

/-- Whether a comment is open after `c`, where `inside` says whether one is open before it: a
comment runs from a semicolon up to the next line feed. -/
def commented (inside : Bool) (c : Char) : Bool :=
  c != '\n' && (inside || c == ';')

/-- The characters outside comments; `inside` says whether the text begins in one. -/
def uncommentFrom (inside : Bool) : List Char → List Char
  | [] => []
  | c :: cs =>
    if commented inside c then uncommentFrom true cs else c :: uncommentFrom false cs

/-- The characters that are neither in a comment nor blank. -/
def contentFrom (inside : Bool) (cs : List Char) : List Char :=
  (uncommentFrom inside cs).filter fun c => !isBlank c

/-- What a text holds besides comments and blanks. -/
def content (cs : List Char) : List Char :=
  contentFrom false cs

theorem uncommentFrom_append (inside : Bool) (cs ds : List Char) :
    uncommentFrom inside (cs ++ ds)
      = uncommentFrom inside cs ++ uncommentFrom (cs.foldl commented inside) ds := by
  induction cs generalizing inside with
  | nil => rfl
  | cons c cs ih =>
    by_cases hc : commented inside c = true
    · simp [uncommentFrom, hc, ih]
    · simp [uncommentFrom, hc, ih]

theorem contentFrom_cons (inside : Bool) (c : Char) (cs : List Char) :
    contentFrom inside (c :: cs)
      = contentFrom inside [c] ++ contentFrom (commented inside c) cs := by
  rw [contentFrom, ← List.singleton_append, uncommentFrom_append, List.filter_append]
  rfl

theorem commented_of_ne {c : Char} (hc : c ≠ ';') : commented false c = false := by
  simp [commented, hc]

theorem contentFrom_kept {c : Char} (hblank : isBlank c = false) (hc : c ≠ ';') :
    contentFrom false [c] = [c] := by
  simp [contentFrom, uncommentFrom, commented_of_ne hc, hblank]

end Text

/-! ## Characters of a scan -/

namespace Lexeme

variable {c : Char} {cs rest w : List Char} {place : Place} {mode : Mode}

/-- The characters of a lexeme. -/
def spell : Lexeme → List Char
  | .opening _ => ['[']
  | .closing _ => [']']
  | .word text => text

/-- The characters that have been taken and are in no complete lexeme yet. -/
def Mode.spelling : Mode → List Char
  | .idle _ => []
  | .comment _ => []
  | .pair first => [first]
  | .quoted spelt => spelt.reverse
  | .bare spelt => spelt.reverse

/-- Whether a comment is open. -/
def Mode.inComment : Mode → Bool
  | .comment _ => true
  | _ => false

theorem kept_of_endsWord (h : endsWord c = false) :
    Text.isBlank c = false ∧ c ≠ '[' ∧ c ≠ ']' ∧ c ≠ ';' := by
  simp only [endsWord, Bool.or_eq_false_iff, beq_eq_false_iff_ne] at h
  exact ⟨h.1.1.1.1.1, h.1.1.1.1.2, h.1.1.1.2, h.2⟩

theorem kept_of_isLone (h : isLone c = true) :
    Text.isBlank c = false ∧ c ≠ '[' ∧ c ≠ ']' ∧ c ≠ ';' := by
  rcases isLone_cases h with rfl | rfl | hmark
  · decide
  · decide
  · exact kept_of_endsWord (isOperatorMark_cases hmark).1

/-- What `c` begins is spelt by `c`, unless it is blank or begins a comment. -/
theorem Begins.content {boundary : Bool} {lexemes : List Lexeme} {next : Mode}
    (h : Begins boundary place c rest (lexemes, next)) :
    lexemes.flatMap spell ++ next.spelling = Text.contentFrom false [c] ∧
      next.inComment = Text.commented false c := by
  have hkept : Text.isBlank c = false ∧ c ≠ '[' ∧ c ≠ ']' ∧ c ≠ ';' →
      [c] = Text.contentFrom false [c] ∧ false = Text.commented false c := fun hc =>
    ⟨(Text.contentFrom_kept hc.1 hc.2.2.2).symm, (Text.commented_of_ne hc.2.2.2).symm⟩
  cases h with
  | blank hblank =>
    have hc : c ≠ ';' := by
      rintro rfl
      exact absurd hblank (by decide)
    simp [Mode.spelling, Mode.inComment, Text.contentFrom, Text.uncommentFrom,
      Text.commented_of_ne hc, hblank]
  | comment hc | opening hc | closing hc =>
    subst hc
    exact ⟨rfl, rfl⟩
  | lone hlone => exact hkept (kept_of_isLone hlone)
  | pair hpair => exact hkept (kept_of_endsWord (endsWord_fst_of_isPair hpair))
  | minus hc | quoted hc =>
    subst hc
    exact hkept (by decide)
  | bare hends => exact hkept (kept_of_endsWord hends)

theorem Mode.Fits.content (h : mode.Fits (c :: rest)) (place : Place) :
    (Lexeme.step mode place c rest).1.flatMap spell ++ (Lexeme.step mode place c rest).2.spelling
        = mode.spelling ++ Text.contentFrom mode.inComment [c] ∧
      (Lexeme.step mode place c rest).2.inComment = Text.commented mode.inComment c := by
  have hkept : endsWord c = false →
      Text.contentFrom false [c] = [c] ∧ Text.commented false c = false := by
    intro hc
    obtain ⟨hblank, -, -, hsemicolon⟩ := kept_of_endsWord hc
    exact ⟨Text.contentFrom_kept hblank hsemicolon, Text.commented_of_ne hsemicolon⟩
  have hstep := steps mode place c rest
  generalize Lexeme.step mode place c rest = result at hstep ⊢
  cases hstep with
  | idle hbegins => exact hbegins.content
  | comment hc =>
    have hinside : Text.commented true c = true := by simp [Text.commented, hc]
    simp [Mode.spelling, Mode.inComment, Text.contentFrom, Text.uncommentFrom, hinside]
  | line hc =>
    subst hc
    exact ⟨rfl, rfl⟩
  | second =>
    cases h with
    | pair hpair =>
      simp [Mode.spelling, Mode.inComment, spell, hkept (endsWord_snd_of_isPair hpair)]
  | quoted hc => simp [Mode.spelling, Mode.inComment, hkept hc]
  | bare hc => simp [Mode.spelling, Mode.inComment, hkept (endsWord_of_continuesBare hc)]
  | quotedEnd _ hbegins | bareEnd _ hbegins =>
    obtain ⟨hspell, hcomment⟩ := hbegins.content
    refine ⟨?_, hcomment⟩
    rw [List.flatMap_cons, List.append_assoc, hspell]
    rfl

theorem Mode.Fits.inComment_run (h : mode.Fits (cs ++ rest)) (place : Place) :
    (Lexeme.run mode place cs rest).2.inComment = cs.foldl Text.commented mode.inComment := by
  induction cs generalizing mode place with
  | nil => rfl
  | cons c cs ih =>
    rw [List.foldl_cons, ← (h.content place).2]
    exact ih (h.step place) (place.next c)

/-- The lexemes of a scan are spelt by what the text holds besides comments and blanks. -/
theorem spell_scanFrom (h : mode.Fits cs) :
    (scanFrom mode place cs).flatMap spell
      = mode.spelling ++ Text.contentFrom mode.inComment cs := by
  induction cs generalizing mode place with
  | nil =>
    cases h with
    | idle | comment => rfl
    | pair hpair => simp [isPair_eq_true] at hpair
    | quoted | bare => simp [scanFrom, finish, spell, Mode.spelling, Text.contentFrom,
        Text.uncommentFrom]
  | cons c cs ih =>
    obtain ⟨hspell, hcomment⟩ := h.content place
    calc (scanFrom mode place (c :: cs)).flatMap spell
        = ((step mode place c cs).1.flatMap spell ++ (step mode place c cs).2.spelling)
            ++ Text.contentFrom (step mode place c cs).2.inComment cs := by
          rw [scanFrom, List.flatMap_append, ih (h.step place), List.append_assoc]
      _ = mode.spelling
            ++ (Text.contentFrom mode.inComment [c]
              ++ Text.contentFrom (Text.commented mode.inComment c) cs) := by
          rw [hspell, hcomment, List.append_assoc]
      _ = mode.spelling ++ Text.contentFrom mode.inComment (c :: cs) := by
          rw [← Text.contentFrom_cons]

/-- A word of a scan is not empty, and no blank, bracket or semicolon is in it. -/
theorem IsWord.chars (h : IsWord w) :
    w ≠ [] ∧ ∀ c ∈ w, Text.isBlank c = false ∧ c ≠ '[' ∧ c ≠ ']' ∧ c ≠ ';' := by
  cases h with
  | lone hlone => simpa using kept_of_isLone hlone
  | pair hpair =>
    simpa using And.intro (kept_of_endsWord (endsWord_fst_of_isPair hpair))
      (kept_of_endsWord (endsWord_snd_of_isPair hpair))
  | quoted hinside =>
    refine ⟨List.cons_ne_nil _ _, List.forall_mem_cons.mpr ⟨by decide, fun c hc => ?_⟩⟩
    exact kept_of_endsWord (hinside c hc)
  | bare hopens hstays =>
    simp only [opensBare, Bool.and_eq_true, Bool.not_eq_true'] at hopens
    refine ⟨List.cons_ne_nil _ _, List.forall_mem_cons.mpr ⟨?_, fun c hc => ?_⟩⟩
    · exact kept_of_endsWord hopens.1.1
    · exact kept_of_endsWord (endsWord_of_mem_staysBare hstays hc)

end Lexeme

/-! ## Characters of atoms -/

namespace Atom

mutual

/-- The characters of an atom, with nothing between the items of a list. -/
def spell : Atom → List Char
  | number n => (displayNumber n).toList
  | word w => w.toList
  | list items => '[' :: (spellItems items ++ [']'])

/-- The characters of several atoms, with nothing between them. -/
def spellItems : List Atom → List Char
  | [] => []
  | a :: items => a.spell ++ spellItems items

end

/-- The atom is built of words with a property, and lists. -/
inductive Built (p : String → Prop) : Atom → Prop
  | word {w : String} : p w → Built p (.word w)
  | list {items : List Atom} : (∀ a ∈ items, Built p a) → Built p (.list items)

theorem spellItems_append (xs ys : List Atom) :
    spellItems (xs ++ ys) = spellItems xs ++ spellItems ys := by
  induction xs with
  | nil => rfl
  | cons a xs ih => simp [spellItems, ih]

end Atom

/-- The characters that have been gathered into the lists that are still open, outermost first. -/
def OpenList.spellAll : List OpenList → List Char
  | [] => []
  | l :: pending => spellAll pending ++ Atom.spellItems l.before.reverse ++ ['[']

variable {pending : List OpenList} {done atoms : List Atom} {lexemes : List Lexeme}

theorem spell_of_gather (h : gather pending done lexemes = .ok atoms) :
    Atom.spellItems atoms
      = OpenList.spellAll pending ++ Atom.spellItems done.reverse
        ++ lexemes.flatMap Lexeme.spell := by
  induction lexemes generalizing pending done with
  | nil =>
    cases pending with
    | nil =>
      obtain rfl : done.reverse = atoms := by simpa [gather] using h
      simp [OpenList.spellAll]
    | cons l pending => simp [gather] at h
  | cons lexeme lexemes ih =>
    cases lexeme with
    | word text =>
      rw [ih h]
      simp [Atom.spellItems_append, Atom.spellItems, Atom.spell, Lexeme.spell]
    | opening place =>
      rw [ih h]
      simp [OpenList.spellAll, Atom.spellItems, Lexeme.spell]
    | closing place =>
      cases pending with
      | nil => simp [gather] at h
      | cons l pending =>
        rw [ih h]
        simp [OpenList.spellAll, Atom.spellItems_append, Atom.spellItems, Atom.spell, Lexeme.spell]

theorem built_of_gather {p : String → Prop}
    (hwords : ∀ w, .word w ∈ lexemes → p (String.ofList w))
    (hpending : ∀ l ∈ pending, ∀ a ∈ l.before, a.Built p) (hdone : ∀ a ∈ done, a.Built p)
    (h : gather pending done lexemes = .ok atoms) : ∀ a ∈ atoms, a.Built p := by
  induction lexemes generalizing pending done with
  | nil =>
    cases pending with
    | nil =>
      obtain rfl : done.reverse = atoms := by simpa [gather] using h
      simpa using hdone
    | cons l pending => simp [gather] at h
  | cons lexeme lexemes ih =>
    have hrest : ∀ w, .word w ∈ lexemes → p (String.ofList w) :=
      fun w hw => hwords w (List.mem_cons_of_mem _ hw)
    cases lexeme with
    | word text =>
      have hword := hwords text List.mem_cons_self
      exact ih hrest hpending (List.forall_mem_cons.mpr ⟨.word hword, hdone⟩) h
    | opening place =>
      exact ih hrest (List.forall_mem_cons.mpr ⟨hdone, hpending⟩) (by simp) h
    | closing place =>
      cases pending with
      | nil => simp [gather] at h
      | cons l pending =>
        obtain ⟨hbefore, hpending⟩ := List.forall_mem_cons.mp hpending
        have hlist : Atom.Built p (.list done.reverse) := .list (by simpa using hdone)
        exact ih hrest hpending (List.forall_mem_cons.mpr ⟨hlist, hbefore⟩) h

/-- The words that reading gives are words of the scan. -/
theorem built_of_read {source : String} (h : read source = .ok atoms) :
    ∀ a ∈ atoms, a.Built fun w => Lexeme.IsWord w.toList := by
  refine built_of_gather (fun w hw => ?_) (by simp) (by simp) h
  rw [String.toList_ofList]
  exact Lexeme.isWord_of_mem_scan hw

/-- Reading loses and invents nothing: the atoms are spelt by the characters of the source that are
neither blank nor in a comment. No word is empty or has a blank, a bracket or a semicolon in it. -/
theorem read_keeps_content {source : String} (h : read source = .ok atoms) :
    Atom.spellItems atoms = Text.content source.toList ∧
    ∀ a ∈ atoms, a.Built fun w =>
      w ≠ "" ∧ ∀ c ∈ w.toList, Text.isBlank c = false ∧ c ≠ '[' ∧ c ≠ ']' ∧ c ≠ ';' := by
  constructor
  · rw [spell_of_gather h, Lexeme.scan, Lexeme.spell_scanFrom (.idle true)]
    rfl
  · refine built_of_gather (fun w hw => ?_) (by simp) (by simp) h
    obtain ⟨hne, hchars⟩ := (Lexeme.isWord_of_mem_scan hw).chars
    rw [String.toList_ofList]
    exact ⟨by simpa using hne, hchars⟩

/-- Comments, blanks and the ends of words and lists leave no trace. -/
theorem read_keeps_content_mixed :
    read "fd[-1.5;x]\n\"b]<=(" =
      .ok [.word "fd", .list [.word "-1.5", .word "\"b"], .word "<=", .word "("] ∧
    Atom.spellItems [.word "fd", .list [.word "-1.5", .word "\"b"], .word "<=", .word "("]
      = Text.content "fd[-1.5;x]\n\"b]<=(".toList := by
  have hread : read "fd[-1.5;x]\n\"b]<=(" =
      .ok [.word "fd", .list [.word "-1.5", .word "\"b"], .word "<=", .word "("] := rfl
  exact ⟨hread, (read_keeps_content hread).1⟩

end TurtleLogo
