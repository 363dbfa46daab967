import TurtleLogo.Proofs.Source.Bracket
import TurtleLogo.Proofs.Source.Minus

set_option autoImplicit false

/-! # Texts put together

A line feed ends whatever the text before it has begun, so what follows it is scanned as if it stood
alone, only further down (`scan_line`). Where a lexeme stands has no influence on what it is, and on
the atoms none at all: moving the places of the lexemes moves the place of an error and nothing else
(`gather_relocate`). Lexemes that can be gathered by themselves are gathered to the same atoms in
the middle of others (`gather_append`). So a word is scanned and read whole in the middle of a text,
wherever one may begin (`scan_between`, `read_between`). -/

namespace TurtleLogo

/-! ## Moving places -/

namespace Lexeme

variable {f : Place → Place}

/-- The lexeme at another place. -/
def relocate (f : Place → Place) : Lexeme → Lexeme
  | .opening place => .opening (f place)
  | .closing place => .closing (f place)
  | .word text => .word text

theorem begin_relocate (f : Place → Place) (boundary : Bool) (place : Place) (c : Char)
    (rest : List Char) :
    begin boundary (f place) c rest
      = Prod.map (List.map (relocate f)) id (begin boundary place c rest) := by
  simp only [begin, apply_ite (Prod.map (List.map (relocate f)) id)]
  rfl

theorem step_relocate (f : Place → Place) (mode : Mode) (place : Place) (c : Char)
    (rest : List Char) :
    step mode (f place) c rest
      = Prod.map (List.map (relocate f)) id (step mode place c rest) := by
  cases mode with
  | idle boundary => exact begin_relocate f boundary place c rest
  | comment boundary =>
    simp only [step]
    split <;> rfl
  | pair first => rfl
  | quoted spelt =>
    simp only [step, begin_relocate f]
    split <;> rfl
  | bare spelt =>
    simp only [step, begin_relocate f]
    split <;> rfl

/-- Where places move along with the text, a scan that begins elsewhere gives the same lexemes
elsewhere. -/
theorem scanFrom_relocate (hf : ∀ place c, f (place.next c) = (f place).next c) (mode : Mode)
    (place : Place) (cs : List Char) :
    scanFrom mode (f place) cs = (scanFrom mode place cs).map (relocate f) := by
  induction cs generalizing mode place with
  | nil => cases mode <;> rfl
  | cons c cs ih =>
    simp only [scanFrom, step_relocate f, Prod.map_fst, Prod.map_snd, id_eq, ← hf, ih,
      List.map_append]

/-- Up to their places, the lexemes do not depend on the place where a scan begins. -/
theorem map_relocate_scanFrom (hf : ∀ p q, f p = f q) (mode : Mode) (place place' : Place)
    (cs : List Char) :
    (scanFrom mode place cs).map (relocate f) = (scanFrom mode place' cs).map (relocate f) := by
  induction cs generalizing mode place place' with
  | nil => rfl
  | cons c cs ih =>
    have hstep : Prod.map (List.map (relocate f)) id (step mode place c cs)
        = Prod.map (List.map (relocate f)) id (step mode place' c cs) := by
      rw [← step_relocate, ← step_relocate, hf place place']
    obtain ⟨hlexemes, hnext⟩ : (step mode place c cs).1.map (relocate f)
        = (step mode place' c cs).1.map (relocate f) ∧
          (step mode place c cs).2 = (step mode place' c cs).2 := Prod.mk.inj hstep
    simp only [scanFrom, List.map_append, hlexemes, hnext, ih _ (place.next c) (place'.next c)]

end Lexeme

/-- The open list, opened at another place. -/
def OpenList.relocate (f : Place → Place) (l : OpenList) : OpenList :=
  { l with place := f l.place }

/-- The same problem at another place. -/
def ReadError.relocate (f : Place → Place) (e : ReadError) : ReadError :=
  { e with place := f e.place }

theorem gather_relocate (f : Place → Place) (pending : List OpenList) (done : List Atom)
    (lexemes : List Lexeme) :
    gather (pending.map (·.relocate f)) done (lexemes.map (·.relocate f))
      = (gather pending done lexemes).mapError (·.relocate f) := by
  induction lexemes generalizing pending done with
  | nil => cases pending <;> rfl
  | cons lexeme lexemes ih =>
    cases lexeme with
    | word text => exact ih pending (.word (String.ofList text) :: done)
    | opening place => exact ih (⟨place, done⟩ :: pending) []
    | closing place =>
      cases pending with
      | nil => rfl
      | cons l pending => exact ih pending (.list done.reverse :: l.before)

/-! ## Gathering in the middle -/

/-- The lists `inner` and the items of the innermost of them, where all of it is inside the lists
`pending` and behind the items `done`. -/
def OpenList.inside (pending : List OpenList) (done : List Atom) :
    List OpenList → List Atom → List OpenList × List Atom
  | [], items => (pending, items ++ done)
  | l :: inner, items =>
    let (outer, before) := inside pending done inner l.before
    (⟨l.place, before⟩ :: outer, items)

theorem OpenList.inside_cons (pending : List OpenList) (done : List Atom) (inner : List OpenList)
    (a : Atom) (items : List Atom) :
    inside pending done inner (a :: items)
      = ((inside pending done inner items).1, a :: (inside pending done inner items).2) := by
  cases inner <;> rfl

theorem gather_inside {inner : List OpenList} {items atoms : List Atom} {lexemes : List Lexeme}
    (h : gather inner items lexemes = .ok atoms) (pending : List OpenList) (done : List Atom)
    (more : List Lexeme) :
    gather (OpenList.inside pending done inner items).1 (OpenList.inside pending done inner items).2
        (lexemes ++ more)
      = gather pending (atoms.reverse ++ done) more := by
  induction lexemes generalizing inner items with
  | nil =>
    cases inner with
    | nil =>
      obtain rfl : items.reverse = atoms := by simpa [gather] using h
      simp [OpenList.inside]
    | cons l inner => simp [gather] at h
  | cons lexeme lexemes ih =>
    cases lexeme with
    | word text =>
      have hrest := ih h
      rw [OpenList.inside_cons] at hrest
      exact hrest
    | opening place =>
      have hinner : gather (⟨place, items⟩ :: inner) [] lexemes = .ok atoms := h
      exact ih hinner
    | closing place =>
      cases inner with
      | nil => simp [gather] at h
      | cons l inner =>
        have hinner : gather inner (.list items.reverse :: l.before) lexemes = .ok atoms := h
        have hrest := ih hinner
        rw [OpenList.inside_cons] at hrest
        exact hrest

/-- Lexemes that are gathered by themselves are gathered to the same atoms wherever they stand. -/
theorem gather_append {atoms : List Atom} {lexemes : List Lexeme}
    (h : gather [] [] lexemes = .ok atoms) (pending : List OpenList) (done : List Atom)
    (more : List Lexeme) :
    gather pending done (lexemes ++ more) = gather pending (atoms.reverse ++ done) more :=
  gather_inside h pending done more

/-- Which bracket has no partner does not depend on what has been gathered before. -/
theorem gather_error {e : ReadError} {lexemes : List Lexeme}
    (h : gather [] [] lexemes = .error e) (done : List Atom) :
    gather [] done lexemes = .error e := by
  have hproblem : readProblem? (gather [] done lexemes) = some e := by
    rw [readProblem?_gather, ← readProblem?_gather [] [], h]
    rfl
  cases hgather : gather [] done lexemes with
  | ok atoms => simp [hgather, readProblem?] at hproblem
  | error e' =>
    rw [hgather] at hproblem
    rw [Option.some.inj hproblem]

/-! ## Line feeds -/

namespace Place

/-- The place `n` lines further down. -/
def down (n : Nat) (p : Place) : Place :=
  ⟨p.line + n, p.column⟩

theorem down_next (n : Nat) (p : Place) (c : Char) : (p.next c).down n = (p.down n).next c := by
  unfold next
  split
  · simp [down, Nat.add_right_comm]
  · rfl

/-- The line after a text begins as many lines down as the text has line feeds, and one more. -/
theorem advance_line (cs : List Char) :
    (start.advance cs).next '\n' = start.down (1 + cs.count '\n') := by
  rw [advance_start, next, if_pos rfl, down, start, ← Nat.add_assoc, Nat.add_right_comm]

end Place

namespace Lexeme

/-- A line feed ends what is open, and nothing of it is kept. -/
theorem Mode.Fits.step_line {mode : Mode} {rest : List Char} (h : mode.Fits ('\n' :: rest))
    (place : Place) : Lexeme.step mode place '\n' rest = (finish mode, .idle true) := by
  cases h with
  | idle | comment | quoted => rfl
  | pair hpair => simp [isPair_eq_true] at hpair
  | @bare spelt =>
    have hends : continuesBare spelt '\n' = false := rfl
    simp only [Lexeme.step, hends]
    rfl

theorem scan_line (cs ds : List Char) :
    scan (cs ++ '\n' :: ds)
      = scan cs ++ (scan ds).map (relocate (Place.down (1 + cs.count '\n'))) := by
  have hrun : run (.idle true) Place.start cs ('\n' :: ds)
      = run (.idle true) Place.start cs [] := run_detached rfl _ _ _
  have hfits : Mode.Fits (cs ++ '\n' :: ds) (.idle true) := .idle true
  have hline := (hfits.run Place.start).step_line (Place.start.advance cs)
  rw [scan, scanFrom_append, scanFrom_cons hline, Place.advance_line,
    scanFrom_relocate (Place.down_next _), hrun, ← List.append_assoc, ← scanFrom_eq_run]
  rfl

end Lexeme

/-- A program is read line by line: what can be read by itself is read to the same atoms before a
line feed and whatever follows it, and what follows is read as it is by itself, its errors as many
lines further down as there are lines before it. -/
theorem read_line_by_line {source : String} {atoms : List Atom} (h : read source = .ok atoms)
    (more : String) :
    (∀ others, read more = .ok others → read (source ++ "\n" ++ more) = .ok (atoms ++ others)) ∧
    (∀ e, read more = .error e → read (source ++ "\n" ++ more)
      = .error ⟨e.problem, ⟨e.place.line + (1 + source.toList.count '\n'), e.place.column⟩⟩) := by
  have hread : read (source ++ "\n" ++ more) = gather [] atoms.reverse
      ((Lexeme.scan more.toList).map
        (Lexeme.relocate (Place.down (1 + source.toList.count '\n')))) := by
    have htext : (source ++ "\n" ++ more).toList = source.toList ++ '\n' :: more.toList := by
      simp
    rw [read, htext, Lexeme.scan_line, gather_append h, List.append_nil]
  -- By itself, the second text is gathered to the same result further down.
  have hmore := gather_relocate (Place.down (1 + source.toList.count '\n')) [] []
    (Lexeme.scan more.toList)
  constructor
  · intro others hothers
    rw [read] at hothers
    rw [hothers] at hmore
    have hall := gather_append hmore [] atoms.reverse []
    rw [List.append_nil] at hall
    rw [hread, hall]
    simp [gather]
  · intro e he
    rw [read] at he
    rw [he] at hmore
    rw [hread, gather_error hmore]
    rfl

/-- A comment and an exponent that are open at the end of a text, and signs that begin the next. -/
theorem read_line_by_line_signs :
    read "1e\n[a] ; [" = .ok [.word "1e", .list [.word "a"]] ∧
    read "-5 .5-7" = .ok [.word "-5", .word ".5", .word "-", .word "7"] ∧
    read ("1e\n[a] ; [" ++ "\n" ++ "-5 .5-7") = .ok
      ([.word "1e", .list [.word "a"]] ++ [.word "-5", .word ".5", .word "-", .word "7"]) ∧
    read "=\n -]" = .error ⟨.unexpectedClosing, ⟨2, 3⟩⟩ ∧
    read ("1e\n[a] ; [" ++ "\n" ++ "=\n -]") = .error ⟨.unexpectedClosing, ⟨4, 3⟩⟩ := by
  have hsource : read "1e\n[a] ; [" = .ok [.word "1e", .list [.word "a"]] := rfl
  have hmore : read "-5 .5-7" = .ok [.word "-5", .word ".5", .word "-", .word "7"] := rfl
  have herror : read "=\n -]" = .error ⟨.unexpectedClosing, ⟨2, 3⟩⟩ := rfl
  exact ⟨hsource, hmore, (read_line_by_line hsource _).1 _ hmore, herror,
    (read_line_by_line hsource _).2 _ herror⟩

/-! ## Words -/

namespace Lexeme

variable {c : Char} {cs w before after : List Char} {mode : Mode}

/-- Whether a word may begin after the text: nothing, a blank or an opening bracket or parenthesis
stands there, and no comment is open. -/
def Opens (before : List Char) : Prop :=
  atBoundary before = true ∧ before.foldl Text.commented false = false

theorem modeAfter_of_opens (h : Opens before) : modeAfter before = .idle true := by
  have hfits : Mode.Fits (before ++ []) (.idle true) := .idle true
  have hcomment : (modeAfter before).inComment = false :=
    (hfits.inComment_run Place.start).trans h.2
  have hlast : before.getLast? ≠ some ']' := by
    intro hlast
    exact absurd h.1 (by simp [atBoundary_of_getLast? hlast])
  have hflag := flag_modeAfter hcomment
  rw [rdropWhile_of_getLast? hlast, h.1] at hflag
  cases hmode : modeAfter before with
  | idle boundary =>
    rw [hmode] at hflag
    exact congrArg Mode.idle hflag
  | comment => simp [hmode, Mode.inComment] at hcomment
  | pair | quoted | bare => simp [hmode, Mode.flag] at hflag

theorem endsWord_of_isBoundary (h : isBoundary c = true) : endsWord c = true := by
  simp only [isBoundary, Bool.or_eq_true] at h
  simp only [endsWord, Bool.or_eq_true]
  tauto

/-- What a blank or an opening bracket or parenthesis begins does not depend on what follows. -/
theorem begin_of_isBoundary (h : isBoundary c = true) (boundary : Bool) (place : Place)
    (rest : List Char) : begin boundary place c rest = begin boundary place c [] := by
  by_cases hblank : Text.isBlank c = true
  · rw [begin, begin, if_pos hblank, if_pos hblank]
  · obtain rfl | rfl : c = '[' ∨ c = '(' := by simpa [isBoundary, hblank] using h
    · rfl
    · rfl

theorem step_of_isBoundary (h : isBoundary c = true) (mode : Mode) (place : Place)
    (rest : List Char) : step mode place c rest = step mode place c [] := by
  cases mode <;> simp only [step, begin_of_isBoundary h _ _ rest]

/-- No numeral and no operator goes on over the end of such a text. -/
theorem run_of_atBoundary (h : atBoundary before = true) (mode : Mode) (place : Place)
    (rest : List Char) : run mode place before rest = run mode place before [] := by
  cases before using List.reverseRecOn with
  | nil => rfl
  | append_singleton cs c =>
    have hc : isBoundary c = true := by simpa [atBoundary] using h
    have hbefore : ∀ more, run mode place cs (c :: more) = run mode place cs [] := by
      intro more
      have hended : ended (c :: more) = true := endsWord_of_isBoundary hc
      exact run_detached (detached_of_ended hended) mode place cs
    simp only [run_append, List.singleton_append, hbefore, run, List.nil_append,
      step_of_isBoundary hc _ _ rest]

theorem scan_append_of_opens (h : Opens before) (rest : List Char) :
    scan (before ++ rest)
      = scan before ++ scanFrom (.idle true) (Place.start.advance before) rest := by
  have hscan : scan before = (run (.idle true) Place.start before []).1 := by
    rw [scan, scanFrom_eq_run, ← modeAfter, modeAfter_of_opens h]
    exact List.append_nil _
  rw [scan, scanFrom_append, run_of_atBoundary h.1, hscan, ← modeAfter, modeAfter_of_opens h]

/-- A word is scanned whole wherever a word may begin, if what follows ends a word; the lexemes
before it are those of the text before it. -/
theorem scan_between (hw : IsWord w) (hbefore : Opens before) (hafter : ended after = true) :
    ∃ boundary, scan (before ++ (w ++ after)) = scan before ++ .word w ::
      scanFrom (.idle boundary) (Place.start.advance (before ++ w)) after := by
  obtain ⟨boundary, hscan⟩ := scanFrom_word hw hafter (Place.start.advance before)
  refine ⟨boundary, ?_⟩
  rw [scan_append_of_opens hbefore, hscan]
  simp [Place.advance]

/-- The flag does not matter in a comment: only a line feed ends it, which puts the flag up. -/
theorem scanFrom_comment (boundary boundary' : Bool) (place : Place) (cs : List Char) :
    scanFrom (.comment boundary) place cs = scanFrom (.comment boundary') place cs := by
  induction cs generalizing place with
  | nil => rfl
  | cons c cs ih =>
    by_cases hc : c = '\n'
    · subst hc
      rfl
    · simp only [scanFrom, step, if_neg hc, ih]

/-- Nor does it matter before a character that ends any word, unless that is a closing bracket. -/
theorem scanFrom_ended (hended : ended cs = true) (hcs : cs.head? ≠ some ']')
    (boundary boundary' : Bool) (place : Place) :
    scanFrom (.idle boundary) place cs = scanFrom (.idle boundary') place cs := by
  cases cs with
  | nil => rfl
  | cons c cs =>
    by_cases hboundary : isBoundary c = true
    · by_cases hblank : Text.isBlank c = true
      · simp only [scanFrom, step, begin, if_pos hblank]
      · obtain rfl | rfl : c = '[' ∨ c = '(' := by simpa [isBoundary, hblank] using hboundary
        · rfl
        · rfl
    · have hclosing : c ≠ ']' := by simpa using hcs
      simp only [isBoundary, Bool.or_eq_true, not_or, Bool.not_eq_true] at hboundary
      obtain rfl | rfl : c = ')' ∨ c = ';' := by
        simpa [ended, endsWord, hboundary, hclosing] using hended
      · rfl
      · exact scanFrom_comment boundary boundary' (place.next ';') cs

/-- A closing bracket ends what is open, unless that is a comment. -/
theorem Mode.Fits.scanFrom_closing (h : mode.Fits [']']) (hcomment : mode.inComment = false)
    (place : Place) : scanFrom mode place [']'] = finish mode ++ [.closing place] := by
  cases h with
  | idle | quoted => rfl
  | comment => simp [Mode.inComment] at hcomment
  | pair hpair => simp [isPair_eq_true] at hpair
  | @bare spelt =>
    have hends : continuesBare spelt ']' = false := rfl
    have hstep : Lexeme.step (.bare spelt) place ']' []
        = ([.word spelt.reverse, .closing place], .idle false) := by
      rw [Lexeme.step, hends]
      rfl
    rw [scanFrom_cons hstep]
    rfl

theorem scanFrom_closing (hlive : cs.foldl Text.commented false = false) (place : Place) :
    scanFrom (.idle true) place (cs ++ [']'])
      = scanFrom (.idle true) place cs ++ [.closing (place.advance cs)] := by
  have hrun : run (.idle true) place cs [']'] = run (.idle true) place cs [] :=
    run_detached rfl _ _ _
  have hfits : Mode.Fits (cs ++ [']']) (.idle true) := .idle true
  have hcomment := (hfits.inComment_run place).trans hlive
  rw [scanFrom_append, (hfits.run place).scanFrom_closing hcomment, hrun, ← List.append_assoc,
    ← scanFrom_eq_run]

end Lexeme

open Lexeme

/-- A text that can be read is read to the same atoms wherever it begins. -/
theorem gather_of_read {source : String} {atoms : List Atom} (h : read source = .ok atoms)
    (place : Place) : gather [] [] (scanFrom (.idle true) place source.toList) = .ok atoms := by
  have hmoved := gather_relocate (fun _ => Place.start) [] []
    (scanFrom (.idle true) place source.toList)
  rw [map_relocate_scanFrom (fun _ _ => rfl) (.idle true) place Place.start, gather_relocate,
    ← scan, ← read, h] at hmoved
  cases hgather : gather [] [] (scanFrom (.idle true) place source.toList) with
  | ok atoms' =>
    rw [hgather] at hmoved
    exact hmoved.symm
  | error e => simp [hgather, Except.mapError] at hmoved

theorem read_between {before w after : String} {items others : List Atom}
    (hw : IsWord w.toList) (hopens : Opens before.toList) (hended : ended after.toList = true)
    (hbefore : read before = .ok items) (hafter : read after = .ok others) :
    read (before ++ w ++ after) = .ok (items ++ .word w :: others) := by
  obtain ⟨boundary, hscan⟩ := scan_between hw hopens hended
  have hhead : after.toList.head? ≠ some ']' := by
    intro hclosing
    obtain ⟨cs, hcs⟩ := List.head?_eq_some_iff.mp hclosing
    have hfails : read after = .error ⟨.unexpectedClosing, Place.start⟩ := by
      rw [read, hcs]
      rfl
    simp [hfails] at hafter
  have hothers := gather_append
    (gather_of_read hafter (Place.start.advance (before.toList ++ w.toList))) []
    (.word w :: items.reverse) []
  have htext : (before ++ w ++ after).toList
      = before.toList ++ (w.toList ++ after.toList) := by simp
  rw [read, htext, hscan, gather_append hbefore, gather, String.ofList_toList, List.append_nil,
    scanFrom_ended hended hhead boundary true]
  rw [List.append_nil] at hothers
  rw [hothers]
  simp [gather]

/-- What can be read is read as a list between brackets, if no comment is open at its end. -/
theorem read_bracketed {source : String} {items : List Atom} (h : read source = .ok items)
    (hlive : source.toList.foldl Text.commented false = false) :
    read ("[" ++ source ++ "]") = .ok [.list items] := by
  have htext : ("[" ++ source ++ "]").toList = '[' :: (source.toList ++ [']']) := by simp
  have hopening : scan ('[' :: (source.toList ++ [']'])) = .opening Place.start ::
      scanFrom (.idle true) (Place.start.next '[') (source.toList ++ [']']) := rfl
  rw [read, htext, hopening, gather, scanFrom_closing hlive, gather_append (gather_of_read h _)]
  simp [gather]

theorem commented_of_isWord {w : List Char} (h : IsWord w) :
    w.foldl Text.commented false = false := by
  have hchars := h.chars.2
  clear h
  induction w with
  | nil => rfl
  | cons c w ih =>
    obtain ⟨hc, hw⟩ := List.forall_mem_cons.mp hchars
    rw [List.foldl_cons, Text.commented_of_ne hc.2.2.2]
    exact ih hw

end TurtleLogo
