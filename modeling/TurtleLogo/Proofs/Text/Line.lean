import TurtleLogo.Proofs.Source.Scan
import TurtleLogo.Proofs.Value.Alphabet
import TurtleLogo.Text.Basic

set_option autoImplicit false

/-! # Lines that stay lines

What a program writes as one line is one line: of all blank characters only spaces are in it. Words
have no blanks, numbers are written without any, and a list has single spaces between its items. So
lines that are written one below the other can be told apart again (`lines_join`). -/

namespace TurtleLogo

namespace Text

/-! ## Texts without blanks -/

/-- No character of the text is blank. -/
def Solid (s : String) : Prop :=
  ∀ c ∈ s.toList, isBlank c = false

/-- No character of the text is blank, unless it is a space. -/
def Spaced (s : String) : Prop :=
  ∀ c ∈ s.toList, isBlank c = true → c = ' '

variable {s t : String}

theorem Solid.of_all (h : s.toList.all (fun c => !isBlank c) = true) : Solid s := by
  simpa [Solid] using h

theorem Solid.append (hs : Solid s) (ht : Solid t) : Solid (s ++ t) := by
  intro c hc
  rw [String.toList_append, List.mem_append] at hc
  exact hc.elim (hs c) (ht c)

theorem Solid.ite {p : Prop} [Decidable p] (hs : Solid s) (ht : Solid t) :
    Solid (if p then s else t) := by
  split
  · exact hs
  · exact ht

theorem Solid.of_digits {cs : List Char} (h : ∀ c ∈ cs, c.isDigit = true) :
    Solid (String.ofList cs) := by
  intro c hc
  rw [String.toList_ofList] at hc
  exact Lexeme.isBlank_of_isDigit (h c hc)

theorem Solid.spaced (h : Solid s) : Spaced s := by
  intro c hc hblank
  rw [h c hc] at hblank
  cases hblank

theorem Spaced.append (hs : Spaced s) (ht : Spaced t) : Spaced (s ++ t) := by
  intro c hc
  rw [String.toList_append, List.mem_append] at hc
  exact hc.elim (hs c) (ht c)

theorem Spaced.intercalate {texts : List String} (h : ∀ t ∈ texts, Spaced t) :
    Spaced (" ".intercalate texts) := by
  induction texts with
  | nil => simp [Spaced]
  | cons t rest ih =>
    obtain ⟨ht, hrest⟩ := List.forall_mem_cons.mp h
    cases rest with
    | nil => simpa using ht
    | cons u rest =>
      have hspace : Spaced " " := by simp [Spaced]
      rw [String.intercalate_cons_cons]
      exact (ht.append hspace).append (ih hrest)

theorem Spaced.not_mem (h : Spaced s) {c : Char} (hblank : isBlank c = true) (hc : c ≠ ' ') :
    c ∉ s.toList :=
  fun hmem => hc (h c hmem hblank)

end Text

/-! ## Numbers -/

namespace Decimal

open Text (Solid)

theorem isDigit_of_mem_toDigits (n : Nat) : ∀ c ∈ Nat.toDigits 10 n, c.isDigit = true :=
  fun _ hc => Nat.isDigit_of_mem_toDigits (by decide) (by decide) hc

theorem solid_zeros (n : Nat) : Solid (zeros n) := by
  refine Solid.of_digits fun c hc => ?_
  rw [List.eq_of_mem_replicate hc]
  decide

theorem solid_writeInt (n : Int) : Solid (writeInt n) := by
  have hsign : Solid (if n < 0 then "-" else "") := .ite (.of_all (by decide)) (.of_all (by decide))
  exact hsign.append (.of_digits (isDigit_of_mem_toDigits n.natAbs))

theorem solid_writePlain (l : Layout) {ds : List Char} (hds : ∀ c ∈ ds, c.isDigit = true)
    (e : Int) : Solid (l.writePlain ds e) := by
  have hpoint : Solid (if l.pointZero then ".0" else "") :=
    .ite (.of_all (by decide)) (.of_all (by decide))
  unfold Layout.writePlain
  dsimp only
  split
  · exact ((Solid.of_digits hds).append (solid_zeros _)).append hpoint
  · split
    · have hpart : ∀ {part : List Char}, part ⊆ ds → Solid (String.ofList part) :=
        fun hsub => .of_digits fun c hc => hds c (hsub hc)
      have hdot : Solid "." := .of_all (by decide)
      exact ((hpart (List.take_subset _ ds)).append hdot).append (hpart (List.drop_subset _ ds))
    · have hlead : Solid "0." := .of_all (by decide)
      exact (hlead.append (solid_zeros _)).append (.of_digits hds)

/-- A number is written without blanks, if what is no number is, and without an exponent. -/
theorem solid_write (l : Layout) (hnan : Solid l.nan) (hinfinite : ∀ b, Solid (l.infinite b))
    (hplain : ∀ e, l.plain e = true) (x : Float) : Solid (l.write x) := by
  unfold Layout.write
  split
  · exact hnan
  · exact hinfinite _
  · next negative m q _ =>
    have hsign : Solid (if negative then "-" else "") :=
      .ite (.of_all (by decide)) (.of_all (by decide))
    refine hsign.append ?_
    unfold Layout.writeMagnitude
    split
    · exact .ite (.of_all (by decide)) (.of_all (by decide))
    · have hds := isDigit_of_mem_toDigits (shortest l.tie m q).1
      simp only [hplain, if_true]
      exact solid_writePlain l hds _

end Decimal

open Text (Solid Spaced)

theorem solid_displayNumber (x : Float) : Solid (displayNumber x) := by
  unfold displayNumber
  split
  · exact Decimal.solid_writeInt _
  · have hinfinite (negative : Bool) : Solid (numberLayout.infinite negative) :=
      .ite (.of_all (by decide)) (.of_all (by decide))
    exact Decimal.solid_write numberLayout (.of_all (by decide)) hinfinite (fun _ => rfl) x

/-! ## Values -/

namespace Atom

theorem displayItems_eq (items : List Atom) :
    displayItems items = " ".intercalate (items.map display) := by
  induction items with
  | nil => rfl
  | cons a rest ih =>
    cases rest with
    | nil => simp [displayItems]
    | cons b rest =>
      rw [displayItems, ih, List.map_cons, List.map_cons, List.map_cons,
        String.intercalate_cons_cons]

variable {a : Atom}

/-- An atom is displayed with no blanks but spaces, if its words have none. -/
theorem Over.spaced_display (h : a.Over fun c => Text.isBlank c = false) : Spaced a.display := by
  induction h with
  | number x => exact (solid_displayNumber x).spaced
  | word hw => exact Solid.spaced hw
  | @list items _ ih =>
    have hitems : Spaced (displayItems items) := by
      rw [displayItems_eq]
      exact Spaced.intercalate (by simpa using ih)
    have hopen : Spaced "[" := (Solid.of_all (by decide)).spaced
    have hclose : Spaced "]" := (Solid.of_all (by decide)).spaced
    rw [display]
    exact (hopen.append hitems).append hclose

theorem Over.spaced_plain (h : a.Over fun c => Text.isBlank c = false) : Spaced a.plain := by
  cases h with
  | number x => exact (Over.number x).spaced_display
  | word hw => exact (Over.word hw).spaced_display
  | @list items hitems =>
    rw [plain, displayItems_eq]
    exact Spaced.intercalate (by simpa using fun a ha => (hitems a ha).spaced_display)

end Atom

/-- A line that is written has no blanks but spaces. -/
theorem Written.spaced {line : String} (h : Written (fun c => Text.isBlank c = false) line) :
    Spaced line := by
  obtain ⟨values, text, hvalues, htext, rfl⟩ := h
  refine Spaced.intercalate fun t ht => ?_
  obtain ⟨a, ha, rfl⟩ := List.mem_map.mp ht
  rcases htext with rfl | rfl
  · exact (hvalues a ha).spaced_display
  · exact (hvalues a ha).spaced_plain

/-! ## Lines below one another -/

namespace Text

theorem linesFrom_append {cs : List Char} (hcs : '\n' ∉ cs) (line rest : List Char) :
    linesFrom line (cs ++ rest) = linesFrom (cs.reverse ++ line) rest := by
  induction cs generalizing line with
  | nil => rfl
  | cons c cs ih =>
    obtain ⟨hc, htail⟩ : c ≠ '\n' ∧ '\n' ∉ cs := by
      simpa [eq_comm] using hcs
    rw [List.cons_append, linesFrom, if_neg hc, ih htail]
    simp

theorem dropReturn_of_not_mem {cs : List Char} (hcs : '\r' ∉ cs) : dropReturn cs = cs := by
  refine if_neg fun hlast => hcs ?_
  exact List.mem_of_getLast? hlast

/-- Lines that are written one below the other are the lines of the text. -/
theorem lines_join {texts : List String} (h : ∀ t ∈ texts, Spaced t) :
    lines (String.join (texts.map (· ++ "\n"))) = texts := by
  induction texts with
  | nil => rfl
  | cons t rest ih =>
    obtain ⟨ht, hrest⟩ := List.forall_mem_cons.mp h
    have hfeed : '\n' ∉ t.toList := ht.not_mem (by decide) (by decide)
    have hreturn : '\r' ∉ t.toList := ht.not_mem (by decide) (by decide)
    have hline : lines (t ++ "\n" ++ String.join (rest.map (· ++ "\n")))
        = t :: lines (String.join (rest.map (· ++ "\n"))) := by
      simp only [lines, String.toList_append, List.append_assoc]
      rw [linesFrom_append hfeed]
      -- The line ends here, and there is no return before the feed that would be lost.
      simp [linesFrom, dropReturn_of_not_mem hreturn]
    rw [List.map_cons, String.join_cons, hline, ih hrest]

end Text

end TurtleLogo
