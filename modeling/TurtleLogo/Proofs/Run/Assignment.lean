import TurtleLogo.Primitive.Variables
import TurtleLogo.Proofs.Run.Isolation
import TurtleLogo.Proofs.Text.Fold

set_option autoImplicit false

/-! # Assignments

An assignment writes one cell of one frame (`Frames.Writes`), the innermost that has a cell for the
name or else the global one (`Frames.Holds`), and shows on the board if the name is wired to it
(`Turtle.Shows`). Frames know names by their folded form and the board up to the case of ASCII
letters; for wired names this is the same (`BoardVariable.foldName_eq_iff`). -/

namespace TurtleLogo

/-! ## Cells -/

theorem putEntry_putEntry {α : Type} (key : String) (a b : α) (es : List (String × α)) :
    putEntry key a (putEntry key b es) = putEntry key a es := by
  induction es with
  | nil => simp [putEntry]
  | cons e es ih =>
    obtain ⟨k, c⟩ := e
    by_cases hk : k = key
    · simp [putEntry, hk]
    · simp [putEntry, hk, ih]

namespace Frame

variable (f : Frame) (name other : String) (a : Atom)

theorem get?_bind : (f.bind name a).cells.get? other
    = if foldName other = foldName name then some (some a) else f.cells.get? other :=
  NameTable.get?_insert ..

theorem bind_declare : (f.declare name).bind name a = f.bind name a := by
  unfold declare
  split
  · rfl
  · simp only [bind, NameTable.insert, putEntry_putEntry]

end Frame

/-! ## Frames -/

namespace Frames

variable {fs fs' : Frames} {name : String} {a : Atom} {i : Nat}

/-- The frames, innermost first and the global one last. -/
def all (fs : Frames) : List Frame :=
  fs.inner ++ [fs.globals]

theorem length_all (fs : Frames) : fs.all.length = fs.depth := by
  simp [all, depth]

/-- The frame at `i` is the innermost that has a cell for the name or, if none has one, the global
frame. -/
structure Holds (fs : Frames) (name : String) (i : Nat) : Prop where
  within : i < fs.depth
  passed : ∀ j < i, ∀ f, fs.all[j]? = some f → f.cells.contains name = false
  stopped : (∃ f, fs.all[i]? = some f ∧ f.cells.contains name = true) ∨ i + 1 = fs.depth

/-- `fs'` is `fs` with the cell of a name written in the frame at `i`, and everything else as it
was. -/
structure Writes (fs fs' : Frames) (name : String) (a : Atom) (i : Nat) : Prop where
  depth : fs'.depth = fs.depth
  others : ∀ j, j ≠ i → fs'.all[j]? = fs.all[j]?
  written : ∃ f f', fs.all[i]? = some f ∧ fs'.all[i]? = some f' ∧ f'.test = f.test ∧
    ∀ other, f'.cells.get? other
      = if foldName other = foldName name then some (some a) else f.cells.get? other

theorem Writes.of_all (h : fs'.all = fs.all.modify i (·.bind name a)) (hi : i < fs.depth) :
    Writes fs fs' name a i where
  depth := by rw [← length_all, ← length_all, h, List.length_modify]
  others j hj := by rw [h, List.getElem?_modify_ne _ _ (Ne.symm hj)]
  written := by
    obtain ⟨f, hf⟩ : ∃ f, fs.all[i]? = some f := by
      rw [← length_all] at hi
      exact ⟨_, List.getElem?_eq_getElem hi⟩
    refine ⟨f, f.bind name a, hf, ?_, rfl, fun other => Frame.get?_bind f name other a⟩
    rw [h, List.getElem?_modify_eq, hf]
    rfl

/-- How many frames an assignment passes. -/
def passes (fs : Frames) (name : String) : Nat :=
  fs.inner.findIdx (·.cells.contains name)

theorem all_assign (fs : Frames) (name : String) (a : Atom) :
    (fs.assign name a).all = fs.all.modify (fs.passes name) (·.bind name a) := by
  obtain ⟨inner, globals⟩ := fs
  induction inner with
  | nil => rfl
  | cons f rest ih =>
    cases hf : f.cells.contains name with
    | true =>
      rw [assign_hit rfl hf]
      simp [all, passes, List.findIdx_cons, hf]
    | false =>
      rw [assign_pass rfl hf]
      simpa [all, passes, List.findIdx_cons, hf, pop] using ih

theorem holds_passes (fs : Frames) (name : String) : Holds fs name (fs.passes name) where
  within := Nat.lt_succ_of_le List.findIdx_le_length
  passed j hj f hf := by
    have hlength : j < fs.inner.length := Nat.lt_of_lt_of_le hj List.findIdx_le_length
    rw [all, List.getElem?_append_left hlength, List.getElem?_eq_getElem hlength] at hf
    rw [← Option.some.inj hf]
    exact List.not_of_lt_findIdx hj
  stopped := by
    have hle : fs.passes name ≤ fs.inner.length := List.findIdx_le_length
    rcases Nat.lt_or_eq_of_le hle with h | h
    · have hframe : fs.all[fs.passes name]? = some fs.inner[fs.passes name] := by
        rw [all, List.getElem?_append_left h]
        exact List.getElem?_eq_getElem h
      have hcell : (fs.inner[fs.passes name]).cells.contains name = true :=
        List.findIdx_getElem (p := fun f : Frame => f.cells.contains name)
      exact .inl ⟨_, hframe, hcell⟩
    · exact .inr (congrArg (· + 1) h)

theorem all_modifyInnermost (fs : Frames) (change : Frame → Frame) :
    (fs.modifyInnermost change).all = fs.all.modify 0 change := by
  cases hinner : fs.inner with
  | nil => simp [modifyInnermost, all, hinner]
  | cons f rest => simp [modifyInnermost, all, hinner]

/-- A variable that has just been declared in the innermost frame is assigned there. -/
theorem assign_declareLocal (fs : Frames) (name : String) (a : Atom) :
    (fs.declareLocal name).assign name a = fs.bindLocal name a := by
  unfold declareLocal bindLocal
  cases hinner : fs.inner with
  | nil => simp [modifyInnermost, hinner, assign, assignInner, Frame.bind_declare]
  | cons f rest =>
    have hdeclared := Frame.contains_declare_self f name
    simp [modifyInnermost, hinner, assign, assignInner, hdeclared, Frame.bind_declare]

theorem get?_bindLocal (fs : Frames) (name other : String) (a : Atom) :
    (fs.bindLocal name a).get? other
      = if foldName other = foldName name then some a else fs.get? other := by
  obtain ⟨inner, globals⟩ := fs
  cases inner with
  | nil =>
    simp only [bindLocal, modifyInnermost, get?, lookup, lookupFrom, Frame.get?_bind]
    split <;> rfl
  | cons f rest =>
    simp only [bindLocal, modifyInnermost, get?, lookup, lookupFrom, Frame.get?_bind]
    by_cases hfold : foldName other = foldName name
    · simp [hfold]
    · simp [hfold]

theorem get?_assign (fs : Frames) (name other : String) (a : Atom) :
    (fs.assign name a).get? other
      = if foldName other = foldName name then some a else fs.get? other := by
  obtain ⟨inner, globals⟩ := fs
  induction inner with
  | nil => exact get?_bindLocal ⟨[], globals⟩ name other a
  | cons f rest ih =>
    cases hf : f.cells.contains name with
    | true =>
      rw [assign_hit rfl hf]
      exact get?_bindLocal ⟨f :: rest, globals⟩ name other a
    | false =>
      rw [assign_pass rfl hf]
      simp only [get?, lookup, lookupFrom, pop, List.tail_cons] at ih ⊢
      by_cases hfold : foldName other = foldName name
      · -- The innermost frame has no cell for either spelling.
        have hnone : f.cells.get? other = none := by
          rw [← NameTable.contains_congr f.cells other name hfold] at hf
          simpa [NameTable.contains] using hf
        simpa [hnone] using ih
      · cases f.cells.get? other with
        | some cell => simp [hfold]
        | none => simpa using ih

end Frames

/-! ## The board -/

namespace BoardVariable

theorem ofName?_name (v : BoardVariable) : ofName? v.name = some v := by
  cases v <;> decide

theorem ofName?_eq_some_iff {v : BoardVariable} {name : String} :
    ofName? name = some v ↔ Text.sameAscii v.name name = true := by
  constructor
  · intro h
    exact List.find?_some (p := fun u : BoardVariable => Text.sameAscii u.name name) h
  · intro h
    have hsame : ∀ u : BoardVariable,
        Text.sameAscii u.name name = Text.sameAscii u.name v.name := by
      intro u
      rw [Text.sameAscii, beq_iff_eq] at h
      rw [Text.sameAscii, Text.sameAscii, h]
    rw [← ofName?_name v, ofName?, ofName?, funext hsame]

/-- A name is wired to a variable exactly if it is folded like the name of the variable. -/
theorem foldName_eq_iff (v : BoardVariable) (name : String) :
    foldName name = foldName v.name ↔ Text.sameAscii v.name name = true := by
  refine Text.foldName_eq_iff ?_ name
  have hletters : v.name.toList.all (fun c => Text.isAsciiFold c.toLower) = true := by
    cases v <;> decide
  exact List.all_eq_true.mp hletters

end BoardVariable

namespace Turtle

/-- `t'` is `t` with a value shown on the board wherever the name is wired to it, and everything
else as it was. -/
structure Shows (t t' : Turtle) (name : String) (a : Atom) : Prop where
  board : ∀ v : BoardVariable, t'.board.get? v
    = if Text.sameAscii v.name name = true then some a else t.board.get? v
  others : { t' with board := t.board } = t

theorem shows_assign (t : Turtle) (name : String) (a : Atom) :
    Shows t (t.assign name a) name a where
  board v := by
    simp only [assign, Board.assign, ← BoardVariable.ofName?_eq_some_iff]
    cases BoardVariable.ofName? name with
    | none => simp
    | some u => simp [Board.get?_set, eq_comm]
  others := rfl

end Turtle

/-! ## Worlds -/

/-- An assignment of a name writes one cell and shows on the board if the name is wired, and this is
all it does. -/
structure World.Assigns (w w' : World) (name : String) (a : Atom) (i : Nat) : Prop where
  frames : w.frames.Writes w'.frames name a i
  turtle : w.turtle.Shows w'.turtle name a
  others : { w' with frames := w.frames, turtle := w.turtle } = w

namespace Act

variable {input : Atom} (me : String) (a : Atom) (w : World)

theorem make_of_list?_eq_none (h : input.list? = none) :
    make me [input, a] w = .done none (w.assign input.display a) := by
  cases input with
  | list items => simp [Atom.list?] at h
  | number x => rfl
  | word text => rfl

theorem declareAndMake_of_list?_eq_none (h : input.list? = none) :
    declareAndMake me [input, a] w = .done none
      { w with frames := w.frames.bindLocal input.display a
               turtle := w.turtle.assign input.display a } := by
  rw [← Frames.assign_declareLocal]
  cases input with
  | list items => simp [Atom.list?] at h
  | number x => rfl
  | word text => rfl

end Act

/-- After an assignment every spelling of the name has the value, and no other name has changed. The
cell that is written is in the innermost frame that has one for the name, or else in the global
frame; the board shows the value if the name is wired to it, which is the same for all spellings of
the name; nothing else changes. `MAKE` does this, and `LOCALMAKE` does it to the innermost frame. -/
theorem assignment_exact (w : World) (name : String) (a : Atom) :
    (∀ other, (w.assign name a).value? other
      = if foldName other = foldName name then some a else w.value? other) ∧
    (∃ i, w.frames.Holds name i ∧ w.Assigns (w.assign name a) name a i) ∧
    (∀ other, foldName other = foldName name →
      ∀ v : BoardVariable, Text.sameAscii v.name other = Text.sameAscii v.name name) ∧
    (∀ me input, input.list? = none → input.display = name →
      Act.make me [input, a] w = .done none (w.assign name a) ∧
      ∃ w', Act.declareAndMake me [input, a] w = .done none w' ∧ w.Assigns w' name a 0 ∧
        ∀ other, w'.value? other
          = if foldName other = foldName name then some a else w.value? other) := by
  have hturtle := Turtle.shows_assign w.turtle name a
  refine ⟨fun other => Frames.get?_assign w.frames name other a, ?_, ?_, ?_⟩
  · have hholds := Frames.holds_passes w.frames name
    have hwrites := Frames.Writes.of_all (Frames.all_assign w.frames name a) hholds.within
    exact ⟨_, hholds, hwrites, hturtle, rfl⟩
  · intro other hother v
    rw [Bool.eq_iff_iff, ← BoardVariable.foldName_eq_iff, ← BoardVariable.foldName_eq_iff, hother]
  · rintro me input hinput rfl
    have hwrites : w.frames.Writes (w.frames.bindLocal input.display a) input.display a 0 :=
      .of_all (Frames.all_modifyInnermost _ _) (Nat.succ_pos _)
    exact ⟨Act.make_of_list?_eq_none me a w hinput, _,
      Act.declareAndMake_of_list?_eq_none me a w hinput, ⟨hwrites, hturtle, rfl⟩,
      fun other => Frames.get?_bindLocal w.frames input.display other a⟩

end TurtleLogo
