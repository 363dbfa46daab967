import Mathlib.Data.List.DropRight
import TurtleLogo.Proofs.Source.Content

set_option autoImplicit false

/-! # Brackets

Reading depends on the brackets outside comments only. They are matched with a stack of the
brackets that are open (`mismatch`), and what becomes of the stack is told by counting: a text
`Closes` a number of brackets that were opened before it, or it has an opening bracket of its own
that is never closed, or a closing bracket too many (`Verdict`). -/

namespace TurtleLogo

/-! ## Places -/

theorem Place.advance_start (cs : List Char) :
    Place.start.advance cs
      = ⟨1 + cs.count '\n', 1 + (cs.rtakeWhile (· != '\n')).length⟩ := by
  induction cs using List.reverseRecOn with
  | nil => rfl
  | append_singleton cs c ih =>
    have hlast : Place.start.advance (cs ++ [c]) = (Place.start.advance cs).next c :=
      List.foldl_concat ..
    rw [hlast, ih, Place.next, List.rtakeWhile_concat]
    by_cases hc : c = '\n'
    · subst hc
      simp [Nat.add_assoc]
    · simp [hc, Nat.add_assoc]

/-! ## Counting -/

namespace Text

variable {inside : Bool} {c : Char} {cs before after : List Char} {m n : Nat}

/-- The number of opening brackets outside comments. -/
def openings (inside : Bool) (cs : List Char) : Nat :=
  (uncommentFrom inside cs).count '['

/-- The number of closing brackets outside comments. -/
def closings (inside : Bool) (cs : List Char) : Nat :=
  (uncommentFrom inside cs).count ']'

/-- Nowhere in the text have more than `n` brackets been closed that were not opened in it. -/
def Within (inside : Bool) (n : Nat) (cs : List Char) : Prop :=
  ∀ q, q <+: cs → closings inside q ≤ openings inside q + n

/-- The text closes exactly `n` brackets that were opened before it, and all those opened in it. -/
def Closes (inside : Bool) (n : Nat) (cs : List Char) : Prop :=
  Within inside n cs ∧ closings inside cs = openings inside cs + n

theorem openings_append (inside : Bool) (cs ds : List Char) :
    openings inside (cs ++ ds)
      = openings inside cs + openings (cs.foldl commented inside) ds := by
  rw [openings, uncommentFrom_append, List.count_append]
  rfl

theorem closings_append (inside : Bool) (cs ds : List Char) :
    closings inside (cs ++ ds)
      = closings inside cs + closings (cs.foldl commented inside) ds := by
  rw [closings, uncommentFrom_append, List.count_append]
  rfl

theorem openings_cons (inside : Bool) (c : Char) (cs : List Char) :
    openings inside (c :: cs) = openings inside [c] + openings (commented inside c) cs :=
  openings_append inside [c] cs

theorem closings_cons (inside : Bool) (c : Char) (cs : List Char) :
    closings inside (c :: cs) = closings inside [c] + closings (commented inside c) cs :=
  closings_append inside [c] cs

theorem within_cons (h : m + closings inside [c] = n + openings inside [c]) :
    Within inside n (c :: cs) ↔ Within (commented inside c) m cs := by
  constructor
  · intro hwithin q hq
    have hcount := hwithin (c :: q) (List.cons_prefix_cons.mpr ⟨rfl, hq⟩)
    rw [openings_cons, closings_cons] at hcount
    omega
  · intro hwithin q hq
    cases q with
    | nil => exact Nat.zero_le _
    | cons d q =>
      obtain ⟨rfl, hq'⟩ := List.cons_prefix_cons.mp hq
      have hcount := hwithin q hq'
      rw [openings_cons, closings_cons]
      omega

theorem closes_cons (h : m + closings inside [c] = n + openings inside [c]) :
    Closes inside n (c :: cs) ↔ Closes (commented inside c) m cs := by
  rw [Closes, Closes, within_cons h, openings_cons, closings_cons]
  refine and_congr_right fun _ => ?_
  omega

/-- The opening bracket after `before` is counted with what follows it. -/
theorem counts_split (hlive : before.foldl commented false = false) (after : List Char) :
    openings false (before ++ '[' :: after)
        = openings false before + 1 + openings false after ∧
      closings false (before ++ '[' :: after)
        = closings false before + closings false after := by
  rw [openings_append, closings_append, hlive, openings_cons, closings_cons]
  refine ⟨?_, ?_⟩
  · exact (Nat.add_assoc ..).symm
  · rw [show closings false ['['] = 0 from rfl, Nat.zero_add]
    rfl

theorem Within.mono (h : Within inside m cs) (hmn : m ≤ n) : Within inside n cs :=
  fun q hq => Nat.le_trans (h q hq) (Nat.add_le_add_left hmn _)

theorem Within.left {ds : List Char} (h : Within inside n (cs ++ ds)) : Within inside n cs :=
  fun q hq => h q (hq.trans (List.prefix_append cs ds))

end Text

/-! ## Brackets of a scan -/

namespace Lexeme

variable {c : Char} {cs rest : List Char} {place : Place} {mode : Mode}

/-- Whether the lexeme is a bracket. -/
def isBracket : Lexeme → Bool
  | .word _ => false
  | _ => true

/-- The bracket that the character at `place` is, unless it is in a comment. -/
def bracketAt (inside : Bool) (place : Place) (c : Char) : List Lexeme :=
  if Text.commented inside c then []
  else if c = '[' then [.opening place]
  else if c = ']' then [.closing place]
  else []

/-- The brackets outside comments, with their places. -/
def bracketsFrom (inside : Bool) (place : Place) : List Char → List Lexeme
  | [] => []
  | c :: cs => bracketAt inside place c ++ bracketsFrom (Text.commented inside c) (place.next c) cs

theorem bracketAt_other (inside : Bool) (place : Place) (hopening : c ≠ '[')
    (hclosing : c ≠ ']') : bracketAt inside place c = [] := by
  simp [bracketAt, hopening, hclosing]

theorem bracketAt_of_endsWord (h : endsWord c = false) (inside : Bool) (place : Place) :
    bracketAt inside place c = [] :=
  bracketAt_other inside place (kept_of_endsWord h).2.1 (kept_of_endsWord h).2.2.1

theorem Begins.brackets {boundary : Bool} {lexemes : List Lexeme} {next : Mode}
    (h : Begins boundary place c rest (lexemes, next)) :
    lexemes.filter isBracket = bracketAt false place c := by
  cases h with
  | blank hblank =>
    have hne : ∀ {d}, Text.isBlank d = false → c ≠ d := by
      rintro d hd rfl
      exact absurd hblank (by simp [hd])
    exact (bracketAt_other false place (hne (by decide)) (hne (by decide))).symm
  | comment hc | opening hc | closing hc =>
    subst hc
    rfl
  | lone hlone =>
    obtain ⟨-, hopening, hclosing, -⟩ := kept_of_isLone hlone
    exact (bracketAt_other false place hopening hclosing).symm
  | pair hpair => exact (bracketAt_of_endsWord (endsWord_fst_of_isPair hpair) false place).symm
  | minus hc | quoted hc =>
    subst hc
    rfl
  | bare hends => exact (bracketAt_of_endsWord hends false place).symm

theorem Mode.Fits.brackets (h : mode.Fits (c :: rest)) (place : Place) :
    (Lexeme.step mode place c rest).1.filter isBracket = bracketAt mode.inComment place c := by
  have hstep := steps mode place c rest
  generalize Lexeme.step mode place c rest = result at hstep ⊢
  cases hstep with
  | idle hbegins | quotedEnd _ hbegins | bareEnd _ hbegins => exact hbegins.brackets
  | comment hc =>
    have hinside : Text.commented true c = true := by simp [Text.commented, hc]
    exact (if_pos hinside).symm
  | line hc =>
    subst hc
    rfl
  | second =>
    cases h with
    | pair hpair => exact (bracketAt_of_endsWord (endsWord_snd_of_isPair hpair) false place).symm
  | quoted hc => exact (bracketAt_of_endsWord hc false place).symm
  | bare hc => exact (bracketAt_of_endsWord (endsWord_of_continuesBare hc) false place).symm

theorem brackets_scanFrom (h : mode.Fits cs) (place : Place) :
    (scanFrom mode place cs).filter isBracket = bracketsFrom mode.inComment place cs := by
  induction cs generalizing mode place with
  | nil => cases mode <;> rfl
  | cons c cs ih =>
    rw [scanFrom, List.filter_append, h.brackets, ih (h.step place), (h.content place).2]
    rfl

end Lexeme

open Text in
/-- A character outside comments is an opening bracket, a closing one or none, and counts as one. -/
theorem Lexeme.bracketAt_cases (inside : Bool) (place : Place) (c : Char) :
    (bracketAt inside place c = [] ∧ openings inside [c] = 0 ∧ closings inside [c] = 0) ∨
    (c = '[' ∧ commented inside c = false ∧ bracketAt inside place c = [.opening place] ∧
      openings inside [c] = 1 ∧ closings inside [c] = 0) ∨
    (c = ']' ∧ commented inside c = false ∧ bracketAt inside place c = [.closing place] ∧
      openings inside [c] = 0 ∧ closings inside [c] = 1) := by
  by_cases hinside : commented inside c = true
  · simp [bracketAt, openings, closings, uncommentFrom, hinside]
  by_cases hopening : c = '['
  · subst hopening
    simp [bracketAt, openings, closings, uncommentFrom, hinside]
  by_cases hclosing : c = ']'
  · subst hclosing
    simp [bracketAt, openings, closings, uncommentFrom, hinside]
  · simp [bracketAt, openings, closings, uncommentFrom, hinside, hopening, hclosing]

/-! ## Matching brackets -/

/-- The error of a failed reading. -/
def readProblem? : Except ReadError (List Atom) → Option ReadError
  | .ok _ => none
  | .error e => some e

/-- What is wrong with the brackets among the lexemes, where `pending` are the places of those that
are open before them, innermost first. -/
def mismatch (pending : List Place) : List Lexeme → Option ReadError
  | [] => pending.head?.map (⟨.unterminatedList, ·⟩)
  | .word _ :: rest => mismatch pending rest
  | .opening place :: rest => mismatch (place :: pending) rest
  | .closing place :: rest =>
    match pending with
    | [] => some ⟨.unexpectedClosing, place⟩
    | _ :: pending => mismatch pending rest

theorem readProblem?_gather (pending : List OpenList) (done : List Atom) (lexemes : List Lexeme) :
    readProblem? (gather pending done lexemes)
      = mismatch (pending.map OpenList.place) (lexemes.filter Lexeme.isBracket) := by
  induction lexemes generalizing pending done with
  | nil => cases pending <;> rfl
  | cons lexeme lexemes ih =>
    cases lexeme with
    | word text => exact ih pending (.word (String.ofList text) :: done)
    | opening place => exact ih (⟨place, done⟩ :: pending) []
    | closing place =>
      cases pending with
      | nil => rfl
      | cons l pending => exact ih pending (.list done.reverse :: l.before)

theorem readProblem?_read (source : String) :
    readProblem? (read source)
      = mismatch [] (Lexeme.bracketsFrom false Place.start source.toList) := by
  rw [read, readProblem?_gather, Lexeme.scan, Lexeme.brackets_scanFrom (.idle true)]
  rfl

/-! ## Matching and counting -/

open Text in
/-- What counting says about a text whose brackets are matched with the result given, `pending`
being open before it. -/
inductive Verdict (inside : Bool) (pending : List Place) (place : Place) (cs : List Char) :
    Option ReadError → Prop
  | matched : Closes inside pending.length cs → Verdict inside pending place cs none
  | closing (before after : List Char) : cs = before ++ ']' :: after →
      Within inside pending.length before →
      openings inside (before ++ [']']) + pending.length < closings inside (before ++ [']']) →
      Verdict inside pending place cs (some ⟨.unexpectedClosing, place.advance before⟩)
  /-- The last bracket that is open at the end was opened in the text. -/
  | inner (before after : List Char) : cs = before ++ '[' :: after →
      before.foldl commented inside = false → Within inside pending.length cs →
      Closes false 0 after →
      Verdict inside pending place cs (some ⟨.unterminatedList, place.advance before⟩)
  /-- The last bracket that is open at the end was opened before the text. -/
  | outer {k : Nat} {p : Place} : pending[k]? = some p → Closes inside k cs →
      Verdict inside pending place cs (some ⟨.unterminatedList, p⟩)

namespace Verdict

open Text

variable {inside : Bool} {pending pending' : List Place} {place : Place} {c : Char}
  {cs : List Char} {result : Option ReadError}

/-- One more character in front, which only the fate of the brackets before it depends on. -/
theorem cons
    (hlength : pending'.length + closings inside [c] = pending.length + openings inside [c])
    (houter : ∀ {k p}, pending'[k]? = some p → Closes (commented inside c) k cs →
      Verdict inside pending place (c :: cs) (some ⟨.unterminatedList, p⟩))
    (h : Verdict (commented inside c) pending' (place.next c) cs result) :
    Verdict inside pending place (c :: cs) result := by
  cases h with
  | matched hcloses => exact .matched ((closes_cons hlength).mpr hcloses)
  | closing before after hcs hwithin hexcess =>
    refine .closing (c :: before) after (by rw [hcs]; rfl) ((within_cons hlength).mpr hwithin) ?_
    rw [List.cons_append, openings_cons, closings_cons]
    omega
  | inner before after hcs hlive hwithin hcloses =>
    exact .inner (c :: before) after (by rw [hcs]; rfl) hlive
      ((within_cons hlength).mpr hwithin) hcloses
  | outer hk hcloses => exact houter hk hcloses

theorem of_mismatch (inside : Bool) (pending : List Place) (place : Place) (cs : List Char) :
    Verdict inside pending place cs
      (mismatch pending (Lexeme.bracketsFrom inside place cs)) := by
  induction cs generalizing inside pending place with
  | nil =>
    have hcloses : Closes inside 0 [] := by
      refine ⟨fun q hq => ?_, rfl⟩
      rw [List.prefix_nil.mp hq]
      exact Nat.zero_le _
    cases pending with
    | nil => exact .matched hcloses
    | cons p pending => exact .outer (k := 0) rfl hcloses
  | cons c cs ih =>
    rw [Lexeme.bracketsFrom]
    obtain ⟨hbracket, hopenings, hclosings⟩ | ⟨rfl, hlive, hbracket, hopenings, hclosings⟩ |
      ⟨rfl, hlive, hbracket, hopenings, hclosings⟩ := Lexeme.bracketAt_cases inside place c
    · rw [hbracket]
      refine cons (by omega) (fun hk hcloses => ?_) (ih _ pending (place.next c))
      exact .outer hk ((closes_cons (by omega)).mpr hcloses)
    · rw [hbracket]
      refine cons (by simp; omega) (fun {k p} hk hcloses => ?_)
        (ih _ (place :: pending) (place.next '['))
      cases k with
      | zero =>
        obtain rfl : place = p := Option.some.inj hk
        have hwithin : Within inside pending.length ('[' :: cs) :=
          (within_cons (by omega)).mpr (hcloses.1.mono (Nat.zero_le (pending.length + 1)))
        rw [hlive] at hcloses
        exact .inner [] cs rfl (by simpa [commented] using hlive) hwithin hcloses
      | succ k => exact .outer hk ((closes_cons (by omega)).mpr hcloses)
    · rw [hbracket]
      cases pending with
      | nil =>
        refine .closing [] cs rfl (fun q hq => ?_) ?_
        · rw [List.prefix_nil.mp hq]
          exact Nat.zero_le _
        · simp [hopenings, hclosings]
      | cons p pending =>
        refine cons (by simp; omega) (fun {k p'} hk hcloses => ?_) (ih _ pending (place.next ']'))
        exact .outer (k := k + 1) hk ((closes_cons (by omega)).mpr hcloses)

end Verdict

/-! ## Reading -/

/-- The opening bracket after `before` is outside comments, and `after` never closes it. -/
def Text.Unclosed (before after : List Char) : Prop :=
  before.foldl commented false = false ∧ Within false 0 after

/-- Reading the source fails with the message, at the line and column of the character after
`before`. -/
def FailsAfter (source : String) (before : List Char) (message : String) : Prop :=
  ∃ e, read source = .error e ∧ e.problem.message = message ∧
    e.place.line = 1 + before.count '\n' ∧
    e.place.column = 1 + (before.rtakeWhile (· != '\n')).length

open Text

theorem Text.Unclosed.not_closes {before after : List Char} (h : Unclosed before after) :
    ¬ Closes false 0 (before ++ '[' :: after) := by
  rintro ⟨hwithin, hcount⟩
  obtain ⟨hopenings, hclosings⟩ := counts_split h.1 after
  have hbefore := hwithin.left before List.prefix_rfl
  have hafter := h.2 after List.prefix_rfl
  omega

theorem Text.not_within_of_excess {cs before after : List Char}
    (hsplit : cs = before ++ ']' :: after)
    (hexcess : openings false (before ++ [']']) < closings false (before ++ [']'])) :
    ¬ Within false 0 cs := fun hwithin =>
  absurd (hwithin (before ++ [']']) ⟨after, by simp [hsplit]⟩) (Nat.not_le.mpr hexcess)

theorem failsAfter_of_readProblem? {source : String} {before : List Char} {problem : ReadProblem}
    (h : readProblem? (read source) = some ⟨problem, Place.start.advance before⟩) :
    FailsAfter source before problem.message := by
  rw [Place.advance_start] at h
  cases hread : read source with
  | ok atoms => simp [hread, readProblem?] at h
  | error e =>
    rw [hread] at h
    obtain rfl := Option.some.inj h
    exact ⟨_, hread, rfl, rfl, rfl⟩

/-- The three ways in which reading can end, with what counting says of each. -/
theorem read_cases (source : String) :
    ((∃ atoms, read source = .ok atoms) ∧ Closes false 0 source.toList) ∨
    (∃ before after, source.toList = before ++ ']' :: after ∧ Within false 0 before ∧
      openings false (before ++ [']']) < closings false (before ++ [']']) ∧
      FailsAfter source before "Unexpected ']'") ∨
    (∃ before after, source.toList = before ++ '[' :: after ∧ Unclosed before after ∧
      Within false 0 source.toList ∧ Closes false 0 after ∧
      FailsAfter source before "Unterminated list, expected ']'") := by
  have hverdict := Verdict.of_mismatch false [] Place.start source.toList
  rw [← readProblem?_read] at hverdict
  generalize hproblem : readProblem? (read source) = problem at hverdict
  cases hverdict with
  | matched hcloses =>
    refine .inl ⟨?_, hcloses⟩
    cases hread : read source with
    | ok atoms => exact ⟨atoms, rfl⟩
    | error e => simp [hread, readProblem?] at hproblem
  | closing before after hsplit hwithin hexcess =>
    exact .inr (.inl ⟨before, after, hsplit, hwithin, hexcess, failsAfter_of_readProblem? hproblem⟩)
  | inner before after hsplit hlive hwithin hcloses =>
    exact .inr (.inr ⟨before, after, hsplit, ⟨hlive, hcloses.1⟩, hwithin, hcloses,
      failsAfter_of_readProblem? hproblem⟩)
  | outer hk => simp at hk

theorem read_eq_ok_iff (source : String) :
    (∃ atoms, read source = .ok atoms) ↔ Closes false 0 source.toList := by
  rcases read_cases source with ⟨hok, hcloses⟩ |
    ⟨before, after, hsplit, -, hexcess, e, hread, -⟩ |
    ⟨before, after, hsplit, hunclosed, -, -, e, hread, -⟩
  · exact ⟨fun _ => hcloses, fun _ => hok⟩
  · refine ⟨?_, fun hcloses => absurd hcloses.1 (not_within_of_excess hsplit hexcess)⟩
    rintro ⟨atoms, hok⟩
    simp [hread] at hok
  · refine ⟨?_, fun hcloses => absurd (hsplit ▸ hcloses) hunclosed.not_closes⟩
    rintro ⟨atoms, hok⟩
    simp [hread] at hok

theorem read_of_excess {source : String} (h : ¬ Within false 0 source.toList) :
    ∃ before after, source.toList = before ++ ']' :: after ∧ Within false 0 before ∧
      openings false (before ++ [']']) < closings false (before ++ [']']) ∧
      FailsAfter source before "Unexpected ']'" := by
  rcases read_cases source with ⟨-, hcloses⟩ | hclosing | ⟨-, -, -, -, hwithin, -⟩
  · exact absurd hcloses.1 h
  · exact hclosing
  · exact absurd hwithin h

theorem read_of_unclosed {source : String} {before after : List Char}
    (hwithin : Within false 0 source.toList) (hsplit : source.toList = before ++ '[' :: after)
    (hunclosed : Unclosed before after) :
    ∃ before after, source.toList = before ++ '[' :: after ∧ Unclosed before after ∧
      (∀ q r, after = q ++ '[' :: r → ¬ Unclosed (before ++ '[' :: q) r) ∧
      FailsAfter source before "Unterminated list, expected ']'" := by
  rcases read_cases source with ⟨-, hcloses⟩ | ⟨_, _, hclosing, -, hexcess, -⟩ |
    ⟨before', after', hsplit', hunclosed', -, hcloses, hfails⟩
  · exact absurd (hsplit ▸ hcloses) hunclosed.not_closes
  · exact absurd hwithin (not_within_of_excess hclosing hexcess)
  · refine ⟨before', after', hsplit', hunclosed', ?_, hfails⟩
    rintro q r rfl ⟨hlive, hafter⟩
    -- The text after the outer bracket begins outside comments.
    have hinner : Unclosed q r := by
      rw [List.foldl_append, hunclosed'.1] at hlive
      exact ⟨hlive, hafter⟩
    exact hinner.not_closes hcloses

/-- Reading succeeds exactly where the brackets outside comments are balanced. Otherwise it names
the first closing bracket that makes more closing than opening ones or, if there is none, the last
opening bracket that is never closed, by line and column; and it fails in no other way. -/
theorem read_matches_brackets (source : String) :
    ((∃ atoms, read source = .ok atoms) ↔
      (∀ q, q <+: source.toList → closings false q ≤ openings false q) ∧
        closings false source.toList = openings false source.toList) ∧
    ((∃ q, q <+: source.toList ∧ openings false q < closings false q) →
      ∃ before after, source.toList = before ++ ']' :: after ∧
        (∀ q, q <+: before → closings false q ≤ openings false q) ∧
        openings false (before ++ [']']) < closings false (before ++ [']']) ∧
        FailsAfter source before "Unexpected ']'") ∧
    ((∀ q, q <+: source.toList → closings false q ≤ openings false q) →
      (∃ before after, source.toList = before ++ '[' :: after ∧ Unclosed before after) →
      ∃ before after, source.toList = before ++ '[' :: after ∧ Unclosed before after ∧
        (∀ q r, after = q ++ '[' :: r → ¬ Unclosed (before ++ '[' :: q) r) ∧
        FailsAfter source before "Unterminated list, expected ']'") ∧
    (∀ e, read source = .error e →
      (∃ q, q <+: source.toList ∧ openings false q < closings false q) ∨
      (∃ before after, source.toList = before ++ '[' :: after ∧ Unclosed before after)) := by
  refine ⟨read_eq_ok_iff source, ?_, ?_, ?_⟩
  · rintro ⟨q, hq, hexcess⟩
    exact read_of_excess fun hwithin => absurd (hwithin q hq) (Nat.not_le.mpr hexcess)
  · rintro hwithin ⟨before, after, hsplit, hunclosed⟩
    exact read_of_unclosed hwithin hsplit hunclosed
  · rintro e herror
    rcases read_cases source with ⟨⟨atoms, hok⟩, -⟩ | ⟨before, after, hsplit, -, hexcess, -⟩ |
      ⟨before, after, hsplit, hunclosed, -⟩
    · simp [hok] at herror
    · exact .inl ⟨before ++ [']'], ⟨after, by simp [hsplit]⟩, hexcess⟩
    · exact .inr ⟨before, after, hsplit, hunclosed⟩

end TurtleLogo
