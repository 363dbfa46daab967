import TurtleLogo.Proofs.Source.Content

set_option autoImplicit false

/-! # Reading back what is printed

Printing separates the items of a list by single spaces, so each word stands where a word may begin
and ends before a character that ends any word. Hence the words of a scan are scanned again as they
are, whatever stood around them at first. -/

namespace TurtleLogo

open Lexeme

variable {cs ds : List Char} {a : Atom} {items : List Atom}

/-- Where a word may begin, the text `cs` is read as `items`, if whatever follows ends a word. -/
def ReadAs (cs : List Char) (items : List Atom) : Prop :=
  ∀ (rest : List Char) (pending : List OpenList) (done : List Atom) (place : Place),
    ended rest = true → ∃ boundary place',
      gather pending done (scanFrom (.idle true) place (cs ++ rest))
        = gather pending (items.reverse ++ done) (scanFrom (.idle boundary) place' rest)

namespace ReadAs

theorem nil : ReadAs [] [] :=
  fun _ _ _ place _ => ⟨true, place, rfl⟩

theorem word {w : String} (hw : IsWord w.toList) : ReadAs w.toList [.word w] := by
  intro rest pending done place hrest
  obtain ⟨boundary, hscan⟩ := scanFrom_word hw hrest place
  refine ⟨boundary, place.advance w.toList, ?_⟩
  rw [hscan, gather, String.ofList_toList]
  rfl

/-- The space puts the scan back to where a word may begin. -/
theorem cons (ha : ReadAs cs [a]) (hitems : ReadAs ds items) :
    ReadAs (cs ++ ' ' :: ds) (a :: items) := by
  intro rest pending done place hrest
  obtain ⟨boundary, place₁, hfirst⟩ := ha (' ' :: (ds ++ rest)) pending done place rfl
  obtain ⟨boundary', place', hothers⟩ := hitems rest pending (a :: done) (place₁.next ' ') hrest
  refine ⟨boundary', place', ?_⟩
  have hspace : scanFrom (.idle boundary) place₁ (' ' :: (ds ++ rest))
      = scanFrom (.idle true) (place₁.next ' ') (ds ++ rest) := rfl
  rw [List.append_assoc, List.cons_append, hfirst, hspace]
  simpa using hothers

theorem list (hitems : ReadAs cs items) : ReadAs ('[' :: (cs ++ [']'])) [.list items] := by
  intro rest pending done place hrest
  obtain ⟨boundary, place₁, hinside⟩ :=
    hitems (']' :: rest) (⟨place, done⟩ :: pending) [] (place.next '[') rfl
  refine ⟨boundary, place₁.next ']', ?_⟩
  have hopening : scanFrom (.idle true) place ('[' :: (cs ++ ']' :: rest))
      = .opening place :: scanFrom (.idle true) (place.next '[') (cs ++ ']' :: rest) := rfl
  have hclosing : scanFrom (.idle boundary) place₁ (']' :: rest)
      = .closing place₁ :: scanFrom (.idle boundary) (place₁.next ']') rest := rfl
  rw [List.cons_append, List.append_assoc, List.singleton_append, hopening, gather, hinside,
    hclosing, gather, List.append_nil, List.reverse_reverse]
  rfl

theorem displayItems (h : ∀ a ∈ items, ReadAs a.display.toList [a]) :
    ReadAs (Atom.displayItems items).toList items := by
  induction items with
  | nil => exact nil
  | cons a items ih =>
    obtain ⟨ha, hitems⟩ := List.forall_mem_cons.mp h
    cases items with
    | nil => exact ha
    | cons b items =>
      have htext : (Atom.displayItems (a :: b :: items)).toList
          = a.display.toList ++ ' ' :: (Atom.displayItems (b :: items)).toList := by
        simp [Atom.displayItems]
      rw [htext]
      exact ha.cons (ih hitems)

theorem read {text : String} (h : ReadAs text.toList items) : read text = .ok items := by
  obtain ⟨boundary, place', hread⟩ := h [] [] [] Place.start rfl
  rw [List.append_nil, List.append_nil] at hread
  rw [TurtleLogo.read, Lexeme.scan, hread]
  simp [scanFrom, finish, gather]

end ReadAs

/-- The text of an atom whose words are words of a scan is read as the atom. -/
theorem Atom.Built.readAs (h : a.Built fun w => IsWord w.toList) :
    ReadAs a.display.toList [a] := by
  induction h with
  | word hw => exact ReadAs.word hw
  | @list items _ ih =>
    have htext : (Atom.list items).display.toList
        = '[' :: ((Atom.displayItems items).toList ++ [']']) := by
      simp [Atom.display]
    rw [htext]
    exact (ReadAs.displayItems ih).list

/-- What has been read is read again from its printed form, with and without the outermost
brackets. -/
theorem read_print {source : String} {atoms : List Atom} (h : read source = .ok atoms) :
    read (Atom.list atoms).plain = .ok atoms ∧
    read (Atom.list atoms).display = .ok [.list atoms] := by
  have hbuilt := built_of_read h
  constructor
  · exact (ReadAs.displayItems fun a ha => (hbuilt a ha).readAs).read
  · exact (Atom.Built.list hbuilt).readAs.read

/-- Signs after a list, a digit and an exponent: the words are the same between spaces. -/
theorem read_print_signs : ∃ atoms,
    read "[]-5;]\n7-1e-3[(-.5--2)]" = .ok atoms ∧
    (Atom.list atoms).display = "[[] -5 7 - 1e-3 [( -.5 - - 2 )]]" ∧
    read (Atom.list atoms).plain = .ok atoms ∧
    read (Atom.list atoms).display = .ok [.list atoms] := by
  have hread : read "[]-5;]\n7-1e-3[(-.5--2)]" =
      .ok [.list [], .word "-5", .word "7", .word "-", .word "1e-3",
        .list [.word "(", .word "-.5", .word "-", .word "-", .word "2", .word ")"]] := rfl
  exact ⟨_, hread, by simp [Atom.display, Atom.displayItems], read_print hread⟩

end TurtleLogo
