import TurtleLogo.Proofs.Source.Bracket
import TurtleLogo.Proofs.Text.Line
import TurtleLogo.Report.Failure

set_option autoImplicit false

/-! # The caret below a bracket

A report on a failed reading shows the line of the bracket without a partner, marked by an arrow,
and a caret in the row below it. The line is found by counting line feeds, as the reader does
(`linesFrom_split`); the caret is put below the bracket by a margin of fixed width. Line numbers are
padded to four digits only, so the caret is off as soon as they have more
(`caret_below_bracket_iff`). -/

namespace TurtleLogo

/-! ## The line of a character -/

namespace Text

/-- The lines of a text, cut in the middle of one. -/
theorem linesFrom_split (before rest : List Char) :
    ∃ above, above.length = before.count '\n' ∧
      linesFrom [] (before ++ rest)
        = above ++ linesFrom (before.rtakeWhile (· != '\n')).reverse rest := by
  induction before using List.reverseRecOn generalizing rest with
  | nil => exact ⟨[], rfl, rfl⟩
  | append_singleton before c ih =>
    obtain ⟨above, hlength, hlines⟩ := ih (c :: rest)
    rw [List.append_assoc, List.singleton_append, hlines, linesFrom, List.rtakeWhile_concat,
      List.count_append, ← hlength]
    by_cases hc : c = '\n'
    · subst hc
      refine ⟨above ++ [dropReturn (before.rtakeWhile (· != '\n'))], ?_, ?_⟩
      · simp
      · simp
    · exact ⟨above, by simp [hc], by simp [hc]⟩

theorem dropReturn_append {c : Char} (hc : c ≠ '\r') (left cs : List Char) :
    ∃ right, dropReturn (left ++ c :: cs) = left ++ c :: right := by
  unfold dropReturn
  split
  · next hlast =>
    cases cs with
    | nil => simp [hc] at hlast
    | cons d cs => exact ⟨(d :: cs).dropLast, by simp⟩
  · exact ⟨cs, rfl⟩

/-- A line that has been begun begins so when it is complete, up to a character that is kept. -/
theorem linesFrom_line {c : Char} (hc : c ≠ '\r') (left middle after : List Char) :
    ∃ right below,
      linesFrom (left ++ c :: middle).reverse after = (left ++ c :: right) :: below := by
  induction after generalizing middle with
  | nil => exact ⟨middle, [], by simp [linesFrom]⟩
  | cons d after ih =>
    rw [linesFrom]
    split
    · obtain ⟨right, hright⟩ := dropReturn_append hc left middle
      exact ⟨right, linesFrom [] after, by rw [List.reverse_reverse, hright]⟩
    · simpa using ih (middle ++ [d])

theorem not_mem_linesFrom {line cs : List Char} (h : '\n' ∉ line) :
    ∀ l ∈ linesFrom line cs, '\n' ∉ l := by
  induction cs generalizing line with
  | nil =>
    rw [linesFrom]
    split
    · simp
    · simpa using h
  | cons c cs ih =>
    rw [linesFrom]
    split
    · have hshort : '\n' ∉ dropReturn line.reverse := by
        unfold dropReturn
        split
        · exact fun hmem => h (by simpa using List.mem_of_mem_dropLast hmem)
        · simpa using h
      have hempty : '\n' ∉ ([] : List Char) := by simp
      simpa [hshort] using ih hempty
    · next hc => exact ih (by simp [h, Ne.symm hc])

theorem not_mem_lines {source line : String} (h : line ∈ lines source) : '\n' ∉ line.toList := by
  obtain ⟨l, hl, rfl⟩ := List.mem_map.mp h
  rw [String.toList_ofList]
  exact not_mem_linesFrom (by simp) l hl

/-- The line of the character `c` after `before`, with as many lines above it as there are line
feeds. -/
theorem lines_split {source : String} {before after : List Char} {c : Char}
    (h : source.toList = before ++ c :: after) (hfeed : c ≠ '\n') (hreturn : c ≠ '\r') :
    ∃ above right below, above.length = before.count '\n' ∧
      lines source
        = above ++ String.ofList (before.rtakeWhile (· != '\n') ++ c :: right) :: below := by
  obtain ⟨above, hlength, hlines⟩ := linesFrom_split before (c :: after)
  obtain ⟨right, below, hline⟩ :=
    linesFrom_line hreturn (before.rtakeWhile (· != '\n')) [] after
  refine ⟨above.map String.ofList, right, below.map String.ofList, by simpa using hlength, ?_⟩
  rw [lines, h, hlines, linesFrom, if_neg hfeed]
  simp at hline
  simp [hline]

end Text

/-! ## Rows of a report -/

namespace Report

/-- The rows of a text. Nothing but a line feed ends one. -/
def rows (text : String) : List (List Char) :=
  text.toList.splitOn '\n'

/-- Whether an arrow marks the row. -/
def IsMarked (row : List Char) : Prop :=
  [' ', '→', ' '] <+: row

/-- What stands before a line that is shown, with the character in the column of the arrow. -/
def gutter (mark : Char) (number : Nat) : List Char :=
  ' ' :: mark :: ' ' :: (lineNumber number).toList ++ [' ', '|', ' ']

/-- The row with the caret. -/
def caretRow (column : Nat) : List Char :=
  List.replicate 8 ' ' ++ ['|', ' '] ++ List.replicate (column - 1) ' ' ++ ['^']

/-- The rows in which a line of the source is shown. -/
def contextRows (place : Place) (number : Nat) (line : String) : List (List Char) :=
  if number = max place.line 1 then [gutter '→' number ++ line.toList, caretRow place.column]
  else [gutter ' ' number ++ line.toList]

theorem rows_append {text : String} {row : List Char} (htext : text.toList = row)
    (h : '\n' ∉ row) (rest : String) : rows (text ++ "\n" ++ rest) = row :: rows rest := by
  rw [rows, rows, String.toList_append, String.toList_append, List.append_assoc, htext]
  exact List.splitOn_append_cons_self_of_not_mem h rest.toList

theorem not_mem_lineNumber (n : Nat) : '\n' ∉ (lineNumber n).toList := by
  have hdigits : '\n' ∉ Nat.toDigits 10 n := fun hmem =>
    absurd (Decimal.isDigit_of_mem_toDigits n _ hmem) (by decide)
  simp [lineNumber, spaces, digits, hdigits]

theorem not_mem_gutter {mark : Char} {line : String} (hmark : mark ≠ '\n')
    (hline : '\n' ∉ line.toList) (n : Nat) : '\n' ∉ gutter mark n ++ line.toList := by
  simp [gutter, not_mem_lineNumber, hmark.symm, hline]

theorem toList_gutter (mark : Char) (n : Nat) (line : String) :
    (String.ofList [' ', mark, ' '] ++ lineNumber n ++ " | " ++ line).toList
      = gutter mark n ++ line.toList := by
  rw [String.toList_append, String.toList_append, String.toList_append, String.toList_ofList]
  rfl

theorem toList_caretRow (column : Nat) :
    ("        | " ++ spaces (column - 1) ++ "^").toList = caretRow column := by
  have hmargin : "        | ".toList = List.replicate 8 ' ' ++ ['|', ' '] := rfl
  rw [String.toList_append, String.toList_append, hmargin, spaces, String.toList_ofList]
  rfl

theorem rows_contextLine (place : Place) (number : Nat) {line : String}
    (h : '\n' ∉ line.toList) (rest : String) :
    rows (contextLine place number line ++ rest) = contextRows place number line ++ rows rest := by
  unfold contextLine contextRows
  split
  · have hmark : " → " = String.ofList [' ', '→', ' '] := rfl
    have hend : "^\n" = "^" ++ "\n" := rfl
    have hsplit : String.ofList [' ', '→', ' '] ++ lineNumber number ++ " | " ++ line ++ "\n"
          ++ "        | " ++ spaces (place.column - 1) ++ ("^" ++ "\n") ++ rest
        = String.ofList [' ', '→', ' '] ++ lineNumber number ++ " | " ++ line ++ "\n"
          ++ ("        | " ++ spaces (place.column - 1) ++ "^" ++ "\n" ++ rest) := by
      simp only [String.append_assoc]
    rw [hmark, hend, hsplit,
      rows_append (toList_gutter '→' number line) (not_mem_gutter (by decide) h number),
      rows_append (toList_caretRow place.column) (by simp [caretRow])]
    rfl
  · have hmark : "   " = String.ofList [' ', ' ', ' '] := rfl
    rw [hmark, rows_append (toList_gutter ' ' number line) (not_mem_gutter (by decide) h number)]
    rfl

theorem rows_context (place : Place) {shown : List (Nat × String)}
    (h : ∀ entry ∈ shown, '\n' ∉ entry.2.toList) :
    rows (String.join (shown.map fun (n, line) => contextLine place n line))
      = shown.flatMap (fun entry => contextRows place entry.1 entry.2) ++ [[]] := by
  induction shown with
  | nil => rfl
  | cons entry shown ih =>
    obtain ⟨hentry, hshown⟩ := List.forall_mem_cons.mp h
    rw [List.map_cons, String.join_cons, rows_contextLine place entry.1 hentry, ih hshown,
      List.flatMap_cons, List.append_assoc]

/-! ## The lines that are shown -/

theorem numbered_append (n : Nat) (xs ys : List String) :
    numbered n (xs ++ ys) = numbered n xs ++ numbered (n + xs.length) ys := by
  induction xs generalizing n with
  | nil => rfl
  | cons x xs ih =>
    rw [List.cons_append, numbered, ih, numbered, List.cons_append, List.length_cons,
      Nat.add_right_comm, Nat.add_assoc]

theorem length_numbered (n : Nat) (xs : List String) : (numbered n xs).length = xs.length := by
  induction xs generalizing n with
  | nil => rfl
  | cons x xs ih => simp [numbered, ih]

theorem mem_numbered {n : Nat} {xs : List String} {entry : Nat × String}
    (h : entry ∈ numbered n xs) : n ≤ entry.1 ∧ entry.1 < n + xs.length ∧ entry.2 ∈ xs := by
  induction xs generalizing n with
  | nil => cases h
  | cons x xs ih =>
    rw [numbered, List.mem_cons] at h
    rcases h with rfl | h
    · simp
    · obtain ⟨hlow, hhigh, hmem⟩ := ih h
      simp only [List.length_cons, List.mem_cons, hmem, or_true, and_true]
      omega

/-- Of the lines that are shown, one has the number of the place. -/
theorem context_split {source : String} {above below : List String} {line : String} {place : Place}
    (hlines : Text.lines source = above ++ line :: below) (hplace : place.line = above.length + 1) :
    ∃ before after : List (Nat × String),
      context place source = String.join ((before ++ (place.line, line) :: after).map
        fun (n, line) => contextLine place n line) ∧
      ∀ entry ∈ before ++ after, entry.1 ≠ place.line ∧ entry.2 ∈ Text.lines source := by
  have hnumbered : numbered 1 (Text.lines source)
      = numbered 1 above ++ (place.line, line) :: numbered (place.line + 1) below := by
    rw [hlines, numbered_append, numbered, Nat.add_comm 1, ← hplace]
  have hlength : (numbered 1 above).length = place.line - 1 := by
    rw [length_numbered, hplace, Nat.add_sub_cancel]
  refine ⟨(numbered 1 above).drop (place.line - 1 - 2), (numbered (place.line + 1) below).take 2,
    ?_, fun entry hentry => ?_⟩
  · unfold context
    dsimp only
    rw [hnumbered, List.take_append, hlength, List.take_of_length_le (by omega),
      show place.line - 1 + 3 - (place.line - 1) = 3 by omega, List.take_succ_cons,
      List.drop_append_of_le_length (by omega)]
  · rw [hlines]
    rcases List.mem_append.mp hentry with hentry | hentry
    · obtain ⟨-, hhigh, hmem⟩ := mem_numbered (List.mem_of_mem_drop hentry)
      exact ⟨by omega, by simp [hmem]⟩
    · obtain ⟨hlow, -, hmem⟩ := mem_numbered (List.mem_of_mem_take hentry)
      exact ⟨by omega, by simp [hmem]⟩

/-! ## Where the caret stands -/

theorem IsMarked.second {row : List Char} (h : IsMarked row) : row[1]? = some '→' := by
  obtain ⟨rest, rfl⟩ := h
  rfl

theorem isMarked_gutter (n : Nat) (line : List Char) : IsMarked (gutter '→' n ++ line) := by
  simp [IsMarked, gutter]

theorem not_isMarked_caretRow (column : Nat) : ¬ IsMarked (caretRow column) :=
  fun h => absurd h.second (by simp [caretRow])

theorem not_isMarked_contextRows {place : Place} {number : Nat} {line : String}
    (h : number ≠ max place.line 1) : ∀ row ∈ contextRows place number line, ¬ IsMarked row := by
  intro row hrow hmarked
  rw [contextRows, if_neg h, List.mem_singleton] at hrow
  subst hrow
  exact absurd hmarked.second (by simp [gutter])

theorem not_isMarked_readingLine (message : String) (place : Place) :
    ¬ IsMarked (readingLine message place).toList := by
  obtain ⟨rest, hrest⟩ : ∃ rest, readingLine message place = "Read error at line " ++ rest := by
    unfold readingLine
    simp only [String.append_assoc]
    exact ⟨_, rfl⟩
  have hlength : 1 < "Read error at line ".toList.length := by decide +kernel
  have hhead : "Read error at line ".toList[1]? = some 'e' := by decide +kernel
  intro h
  have hsecond := h.second
  rw [hrest, String.toList_append, List.getElem?_append_left hlength, hhead] at hsecond
  exact absurd (Option.some.inj hsecond) (by decide)

theorem rows_reading {message : String} (h : '\n' ∉ message.toList) (place : Place)
    (source : String) :
    rows (reading message place source)
      = [] :: (readingLine message place).toList :: [] :: rows (context place source) := by
  have happend : ∀ {s t : String}, '\n' ∉ s.toList → '\n' ∉ t.toList → '\n' ∉ (s ++ t).toList := by
    intro s t hs ht
    rw [String.toList_append, List.mem_append]
    exact not_or.mpr ⟨hs, ht⟩
  have hdigits : ∀ n, '\n' ∉ (digits n).toList := by
    intro n hmem
    rw [digits, String.toList_ofList] at hmem
    exact absurd (Decimal.isDigit_of_mem_toDigits n _ hmem) (by decide)
  have hline : '\n' ∉ (readingLine message place).toList :=
    happend (happend (happend (happend (happend (by decide +kernel) (hdigits _))
      (by decide +kernel)) (hdigits _)) (by decide +kernel)) h
  have hend : "\n\n" = "\n" ++ ("" ++ "\n") := rfl
  have hsplit : "\n" ++ readingLine message place ++ ("\n" ++ ("" ++ "\n")) ++ context place source
      = "" ++ "\n" ++ (readingLine message place ++ "\n"
        ++ ("" ++ "\n" ++ context place source)) := by
    rw [String.empty_append]
    simp only [String.append_assoc]
  rw [reading, hend, hsplit, rows_append rfl (by simp), rows_append rfl hline,
    rows_append rfl (by simp)]
  rfl

/-- A report marks one line, that of the place, and has a caret below it. -/
theorem rows_reading_split {source message : String} {above below : List String} {line : String}
    {place : Place} (hmessage : '\n' ∉ message.toList)
    (hlines : Text.lines source = above ++ line :: below) (hplace : place.line = above.length + 1) :
    ∃ upper lower, rows (reading message place source)
        = upper ++ (gutter '→' place.line ++ line.toList) :: caretRow place.column :: lower ∧
      ∀ row ∈ upper ++ lower, ¬ IsMarked row := by
  obtain ⟨before, after, hcontext, hentries⟩ := context_split hlines hplace
  have hmax : place.line = max place.line 1 := by omega
  have hfeed : ∀ entry ∈ before ++ (place.line, line) :: after, '\n' ∉ entry.2.toList := by
    intro entry hentry
    have hmem : entry.2 ∈ Text.lines source := by
      by_cases hother : entry ∈ before ++ after
      · exact (hentries entry hother).2
      · obtain rfl : entry = (place.line, line) := by
          simp only [List.mem_append, List.mem_cons] at hentry hother
          tauto
        simp [hlines]
    exact Text.not_mem_lines hmem
  have hother : ∀ entry ∈ before ++ after, ∀ row ∈ contextRows place entry.1 entry.2,
      ¬ IsMarked row := fun entry hentry =>
    not_isMarked_contextRows (hmax ▸ (hentries entry hentry).1)
  refine ⟨[] :: (readingLine message place).toList :: []
      :: before.flatMap (fun entry => contextRows place entry.1 entry.2),
    after.flatMap (fun entry => contextRows place entry.1 entry.2) ++ [[]], ?_, ?_⟩
  · rw [rows_reading hmessage, hcontext, rows_context place hfeed, List.flatMap_append,
      List.flatMap_cons, contextRows, if_pos hmax]
    simp
  · have hempty : ¬ IsMarked [] := fun h => absurd h.second (by simp)
    have hflat : ∀ {entries : List (Nat × String)}, (∀ entry ∈ entries, entry ∈ before ++ after) →
        ∀ row ∈ entries.flatMap (fun entry => contextRows place entry.1 entry.2),
          ¬ IsMarked row := by
      intro entries hsub row hrow
      obtain ⟨entry, hentry, hrow⟩ := List.mem_flatMap.mp hrow
      exact hother entry (hsub entry hentry) row hrow
    intro row hrow
    simp only [List.cons_append, List.mem_cons, List.mem_append, List.not_mem_nil, or_false] at hrow
    rcases hrow with rfl | rfl | rfl | hrow | hrow | rfl
    · exact hempty
    · exact not_isMarked_readingLine message place
    · exact hempty
    · exact hflat (fun entry h => List.mem_append_left after h) row hrow
    · exact hflat (fun entry h => List.mem_append_right before h) row hrow
    · exact hempty

theorem length_lineNumber (n : Nat) :
    (lineNumber n).toList.length = max 4 (Nat.toDigits 10 n).length := by
  simp [lineNumber, spaces, digits]
  omega

theorem length_gutter (n : Nat) : (gutter '→' n).length = 10 ↔ n < 10000 := by
  have hdigits := Nat.length_toDigits_le_iff (n := n) (b := 10) (k := 4) (by decide) (by decide)
  have hlength := length_lineNumber n
  simp only [gutter, List.length_cons, List.length_append, List.length_nil, hlength]
  rw [← hdigits]
  omega

theorem idxOf_caretRow (column : Nat) : (caretRow column).idxOf '^' = 10 + (column - 1) := by
  have hmargin : '^' ∉ List.replicate 8 ' ' ++ ['|', ' '] ++ List.replicate (column - 1) ' ' := by
    simp
  rw [caretRow, List.idxOf_append_of_notMem hmargin, List.length_append]
  simp

theorem count_caretRow (column : Nat) : (caretRow column).count '^' = 1 := by
  simp [caretRow, List.count_append, List.count_replicate]

end Report

/-! ## The bracket that is shown -/

open Text

/-- The bracket after `before` has no partner, and this is what is wrong with it: it closes more
than was opened, or it is never closed. -/
inductive Unmatched (before after : List Char) : Char → ReadProblem → Prop
  | closing : Within false 0 before →
      openings false (before ++ [']']) < closings false (before ++ [']']) →
      Unmatched before after ']' .unexpectedClosing
  | opening : Unclosed before after → Unmatched before after '[' .unterminatedList

theorem Unmatched.ne {before after : List Char} {bracket : Char} {problem : ReadProblem}
    (h : Unmatched before after bracket problem) : bracket ≠ '\n' ∧ bracket ≠ '\r' := by
  cases h <;> decide

theorem ReadProblem.not_mem_message (p : ReadProblem) : '\n' ∉ p.message.toList := by
  cases p <;> decide +kernel

theorem FailsAfter.eq {source : String} {before : List Char} {problem : ReadProblem}
    {e : ReadError} (h : FailsAfter source before problem.message)
    (hread : read source = .error e) :
    e.problem = problem ∧ e.place = Place.start.advance before := by
  obtain ⟨e', hread', hmessage, hline, hcolumn⟩ := h
  obtain rfl : e = e' := by
    rw [hread] at hread'
    exact Except.error.inj hread'
  refine ⟨?_, by rw [Place.advance_start, ← hline, ← hcolumn]⟩
  cases hproblem : e.problem <;> cases problem <;>
    simp [hproblem, ReadProblem.message] at hmessage ⊢

/-- A reading that fails names a bracket without a partner by its place. -/
theorem unmatched_of_read {source : String} {e : ReadError} (h : read source = .error e) :
    ∃ before after bracket, source.toList = before ++ bracket :: after ∧
      Unmatched before after bracket e.problem ∧ e.place = Place.start.advance before := by
  rcases read_cases source with ⟨⟨atoms, hok⟩, -⟩ |
    ⟨before, after, hsplit, hwithin, hexcess, hfails⟩ |
    ⟨before, after, hsplit, hunclosed, -, -, hfails⟩
  · rw [h] at hok
    cases hok
  · have hfails : FailsAfter source before (ReadProblem.message .unexpectedClosing) := hfails
    obtain ⟨hproblem, hplace⟩ := hfails.eq h
    exact ⟨before, after, ']', hsplit, hproblem ▸ .closing hwithin hexcess, hplace⟩
  · have hfails : FailsAfter source before (ReadProblem.message .unterminatedList) := hfails
    obtain ⟨hproblem, hplace⟩ := hfails.eq h
    exact ⟨before, after, '[', hsplit, hproblem ▸ .opening hunclosed, hplace⟩

/-- An error at the place of a character is reported with the line of that character. -/
theorem rows_report_split {source : String} {before after : List Char} {c : Char} {e : ReadError}
    (hsplit : source.toList = before ++ c :: after) (hfeed : c ≠ '\n') (hreturn : c ≠ '\r')
    (hplace : e.place = Place.start.advance before) :
    ∃ right above below,
      (lines source)[e.place.line - 1]?
        = some (String.ofList (before.rtakeWhile (· != '\n') ++ c :: right)) ∧
      Report.rows (Failure.report source (.reading e))
        = above ++ (Report.gutter '→' e.place.line ++ (before.rtakeWhile (· != '\n') ++ c :: right))
          :: Report.caretRow e.place.column :: below ∧
      ∀ row ∈ above ++ Report.caretRow e.place.column :: below, ¬ Report.IsMarked row := by
  obtain ⟨upper, right, lower, hlength, hlines⟩ := lines_split hsplit hfeed hreturn
  have hline : e.place.line = upper.length + 1 := by
    rw [hplace, Place.advance_start, hlength, Nat.add_comm]
  obtain ⟨above, below, hrows, hother⟩ :=
    Report.rows_reading_split e.problem.not_mem_message hlines hline
  refine ⟨right, above, below, ?_, ?_, fun row hrow => ?_⟩
  · rw [hlines, hline]
    simp
  · rw [String.toList_ofList] at hrows
    exact hrows
  · rw [List.mem_append, List.mem_cons] at hrow
    rcases hrow with hrow | rfl | hrow
    · exact hother row (List.mem_append_left below hrow)
    · exact Report.not_isMarked_caretRow e.place.column
    · exact hother row (List.mem_append_right above hrow)

/-- A report on a failed reading has one row that is marked by an arrow. It shows the line of the
bracket that the error is about, and the row after it has one caret, in the column of that bracket
exactly if the number of the line has at most four digits. -/
theorem caret_below_bracket_iff {source : String} {e : ReadError} (h : read source = .error e) :
    ∃ (before after left right gutter caret : List Char) (bracket : Char)
      (above below : List (List Char)),
      source.toList = before ++ bracket :: after ∧ Unmatched before after bracket e.problem ∧
      e.place = Place.start.advance before ∧
      left = before.rtakeWhile (· != '\n') ∧
      (lines source)[e.place.line - 1]? = some (String.ofList (left ++ bracket :: right)) ∧
      Report.rows (Failure.report source (.reading e))
        = above ++ (gutter ++ (left ++ bracket :: right)) :: caret :: below ∧
      Report.IsMarked (gutter ++ (left ++ bracket :: right)) ∧
      (∀ row ∈ above ++ caret :: below, ¬ Report.IsMarked row) ∧
      caret.count '^' = 1 ∧
      (caret.idxOf '^' = (gutter ++ left).length ↔ e.place.line < 10000) := by
  obtain ⟨before, after, bracket, hsplit, hunmatched, hplace⟩ := unmatched_of_read h
  obtain ⟨hfeed, hreturn⟩ := hunmatched.ne
  obtain ⟨right, above, below, hline, hrows, hother⟩ :=
    rows_report_split hsplit hfeed hreturn hplace
  have hcolumn : e.place.column = 1 + (before.rtakeWhile (· != '\n')).length := by
    rw [hplace, Place.advance_start]
  refine ⟨before, after, _, right, _, _, bracket, above, below, hsplit, hunmatched, hplace, rfl,
    hline, hrows, Report.isMarked_gutter .., hother, Report.count_caretRow .., ?_⟩
  rw [Report.idxOf_caretRow, List.length_append, ← Report.length_gutter, hcolumn]
  omega

/-- A closing bracket in the second of three lines: the caret stands below it. -/
theorem caret_below_bracket_iff_second_line :
    read "fd 10\nrt ]\nfd 5" = .error ⟨.unexpectedClosing, ⟨2, 4⟩⟩ ∧
    ∃ (gutter left right caret : List Char) (bracket : Char) (above below : List (List Char)),
      Report.rows (Failure.report "fd 10\nrt ]\nfd 5" (.reading ⟨.unexpectedClosing, ⟨2, 4⟩⟩))
        = above ++ (gutter ++ (left ++ bracket :: right)) :: caret :: below ∧
      caret.idxOf '^' = (gutter ++ left).length := by
  have hread : read "fd 10\nrt ]\nfd 5" = .error ⟨.unexpectedClosing, ⟨2, 4⟩⟩ := rfl
  obtain ⟨before, after, left, right, gutter, caret, bracket, above, below, -, -, -, -, -, hrows,
    -, -, -, hcaret⟩ := caret_below_bracket_iff hread
  exact ⟨hread, gutter, left, right, caret, bracket, above, below, hrows, hcaret.mpr (by decide)⟩

/-! ## A line number of five digits -/

theorem Lexeme.bracketsFrom_feeds (place : Place) (n : Nat) (cs : List Char) :
    bracketsFrom false place (List.replicate n '\n' ++ cs)
      = bracketsFrom false (place.advance (List.replicate n '\n')) cs := by
  induction n generalizing place with
  | zero => rfl
  | succ n ih => exact ih (place.next '\n')

theorem Text.rtakeWhile_feeds (n : Nat) :
    (List.replicate n '\n').rtakeWhile (· != '\n') = [] := by
  rw [List.rtakeWhile_eq_nil_iff]
  intro hne
  simp

theorem Place.advance_feeds (n : Nat) :
    Place.start.advance (List.replicate n '\n') = ⟨1 + n, 1⟩ := by
  rw [Place.advance_start, List.count_replicate_self, rtakeWhile_feeds]
  rfl

theorem read_closing_after_feeds (n : Nat) :
    read (String.ofList (List.replicate n '\n' ++ [']']))
      = .error ⟨.unexpectedClosing, ⟨1 + n, 1⟩⟩ := by
  have hproblem := readProblem?_read (String.ofList (List.replicate n '\n' ++ [']']))
  rw [String.toList_ofList, Lexeme.bracketsFrom_feeds, Place.advance_feeds] at hproblem
  cases hread : read (String.ofList (List.replicate n '\n' ++ [']'])) with
  | ok atoms =>
    rw [hread] at hproblem
    cases hproblem
  | error e =>
    rw [hread] at hproblem
    rw [Option.some.inj hproblem]

/-- In the ten thousandth line the caret stands before the bracket. -/
theorem caret_before_bracket :
    ∃ (above below : List (List Char)) (marked caret : List Char),
      read (String.ofList (List.replicate 9999 '\n' ++ [']']))
        = .error ⟨.unexpectedClosing, ⟨10000, 1⟩⟩ ∧
      Report.rows (Failure.report (String.ofList (List.replicate 9999 '\n' ++ [']']))
          (.reading ⟨.unexpectedClosing, ⟨10000, 1⟩⟩))
        = above ++ marked :: caret :: below ∧
      Report.IsMarked marked ∧ marked.idxOf ']' = 11 ∧ caret.idxOf '^' = 10 := by
  have hsplit : (String.ofList (List.replicate 9999 '\n' ++ [']'])).toList
      = List.replicate 9999 '\n' ++ ']' :: [] := String.toList_ofList
  obtain ⟨right, above, below, -, hrows, -⟩ :=
    rows_report_split (e := ⟨.unexpectedClosing, ⟨10000, 1⟩⟩) hsplit (by decide) (by decide)
      (Place.advance_feeds 9999).symm
  rw [rtakeWhile_feeds, List.nil_append] at hrows
  refine ⟨above, below, _, _, read_closing_after_feeds 9999, hrows, Report.isMarked_gutter .., ?_,
    Report.idxOf_caretRow 1⟩
  have hgutter : ']' ∉ Report.gutter '→' 10000 := by decide +kernel
  rw [List.idxOf_append_of_notMem hgutter, List.idxOf_cons_self]
  decide +kernel

end TurtleLogo
