import Mathlib.Data.List.Forall2
import TurtleLogo.Proofs.Run.Balance

set_option autoImplicit false

/-! # Frames that a call leaves alone

A procedure works in a frame of its own. Behind that frame it can only assign, and only names that
its own frame does not have (`Frames.Evolves`). So when its frame is dropped, the caller finds its
frames as they were, up to assignments (`Frames.Assigned`): no cell has come or gone but new
globals, none has lost its value, and no flag of `TEST` has changed (`Frames.Isolated`). -/

namespace TurtleLogo

/-! ## Cells of a name table -/

namespace NameTable

variable {α : Type} (t : NameTable α) (name other : String) (a : α)

theorem contains_insert :
    (t.insert name a).contains other
      = (decide (foldName other = foldName name) || t.contains other) := by
  simp only [contains, get?_insert]
  by_cases h : foldName other = foldName name
  · simp [h]
  · simp [h]

theorem contains_congr (h : foldName name = foldName other) :
    t.contains name = t.contains other := by
  simp only [contains, get?, h]

end NameTable

namespace Frame

variable (f : Frame) (name other : String) (a : Atom)

theorem contains_bind (h : f.cells.contains other = true) :
    (f.bind name a).cells.contains other = true := by
  simp only [Frame.bind, NameTable.contains_insert, h, Bool.or_true]

theorem contains_bind_self : (f.bind name a).cells.contains name = true := by
  simp [Frame.bind, NameTable.contains_insert]

theorem contains_declare (h : f.cells.contains other = true) :
    (f.declare name).cells.contains other = true := by
  unfold Frame.declare
  split
  · exact h
  · simp only [NameTable.contains_insert, h, Bool.or_true]

theorem contains_declare_self : (f.declare name).cells.contains name = true := by
  unfold Frame.declare
  split
  · next h => exact h
  · simp [NameTable.contains_insert]

end Frame

/-! ## What a frame keeps -/

namespace Frame

/-- The same cells with the same flag of `TEST`; a cell that had a value has one still. -/
structure Kept (f f' : Frame) : Prop where
  test : f'.test = f.test
  names (name : String) : f'.cells.contains name = f.cells.contains name
  assigned (name : String) :
    (f.cells.get? name).join.isSome = true → (f'.cells.get? name).join.isSome = true

/-- The same flag of `TEST` and all the cells there were; a cell that had a value has one still, and
a new cell has one too. -/
structure Grown (f f' : Frame) : Prop where
  test : f'.test = f.test
  names (name : String) : f.cells.contains name = true → f'.cells.contains name = true
  assigned (name : String) :
    (f.cells.get? name).join.isSome = true → (f'.cells.get? name).join.isSome = true
  fresh (name : String) : f.cells.contains name = false → f'.cells.contains name = true →
    (f'.cells.get? name).join.isSome = true

theorem Kept.refl (f : Frame) : Kept f f :=
  ⟨rfl, fun _ => rfl, fun _ h => h⟩

theorem Kept.trans {f₁ f₂ f₃ : Frame} (h₁ : Kept f₁ f₂) (h₂ : Kept f₂ f₃) : Kept f₁ f₃ where
  test := h₂.test.trans h₁.test
  names name := (h₂.names name).trans (h₁.names name)
  assigned name h := h₂.assigned name (h₁.assigned name h)

theorem Grown.refl (f : Frame) : Grown f f where
  test := rfl
  names _ h := h
  assigned _ h := h
  fresh name h h' := by rw [h] at h'; exact absurd h' (by simp)

theorem Grown.trans {f₁ f₂ f₃ : Frame} (h₁ : Grown f₁ f₂) (h₂ : Grown f₂ f₃) : Grown f₁ f₃ where
  test := h₂.test.trans h₁.test
  names name h := h₂.names name (h₁.names name h)
  assigned name h := h₂.assigned name (h₁.assigned name h)
  fresh name h h' := by
    cases hmid : f₂.cells.contains name with
    | false => exact h₂.fresh name hmid h'
    | true => exact h₂.assigned name (h₁.fresh name h hmid)

theorem isSome_get?_bind (f : Frame) (name other : String) (a : Atom)
    (h : foldName other = foldName name ∨ (f.cells.get? other).join.isSome = true) :
    ((f.bind name a).cells.get? other).join.isSome = true := by
  simp only [Frame.bind, NameTable.get?_insert]
  by_cases hfold : foldName other = foldName name
  · simp [hfold]
  · simpa [hfold] using h

theorem Kept.bind {f : Frame} {name : String} (a : Atom) (h : f.cells.contains name = true) :
    Kept f (f.bind name a) where
  test := rfl
  names other := by
    simp only [Frame.bind, NameTable.contains_insert]
    by_cases hfold : foldName other = foldName name
    · simp [hfold, NameTable.contains_congr f.cells other name hfold, h]
    · simp [hfold]
  assigned other h := isSome_get?_bind f name other a (Or.inr h)

theorem Grown.bind (f : Frame) (name : String) (a : Atom) : Grown f (f.bind name a) where
  test := rfl
  names other h := contains_bind f name other a h
  assigned other h := isSome_get?_bind f name other a (Or.inr h)
  fresh other h h' := by
    refine isSome_get?_bind f name other a (Or.inl ?_)
    simpa [Frame.bind, NameTable.contains_insert, h] using h'

end Frame

/-! ## Assignments -/

namespace Frames

variable {fs fs' fs₁ fs₂ fs₃ : Frames} {P Q : String → Prop}

theorem pop_modifyInnermost {change : Frame → Frame} (hne : fs.inner ≠ []) :
    (fs.modifyInnermost change).pop = fs.pop := by
  cases hinner : fs.inner with
  | nil => exact absurd hinner hne
  | cons f rest => simp [modifyInnermost, pop, hinner]

theorem innermost_modifyInnermost (fs : Frames) (change : Frame → Frame) :
    (fs.modifyInnermost change).innermost = change fs.innermost := by
  cases hinner : fs.inner with
  | nil => simp [modifyInnermost, innermost, hinner]
  | cons f rest => simp [modifyInnermost, innermost, hinner]

/-- An assignment stops at the innermost frame that has a cell for the name. -/
theorem assign_hit {f : Frame} {rest : List Frame} {name : String} (hinner : fs.inner = f :: rest)
    (h : f.cells.contains name = true) (a : Atom) :
    fs.assign name a = { fs with inner := f.bind name a :: rest } := by
  simp [assign, assignInner, hinner, h]

/-- An assignment that passes the innermost frame is one behind it. -/
theorem assign_pass {f : Frame} {rest : List Frame} {name : String} (hinner : fs.inner = f :: rest)
    (h : f.cells.contains name = false) (a : Atom) :
    fs.assign name a
      = { fs.pop.assign name a with inner := f :: (fs.pop.assign name a).inner } := by
  simp only [assign, assignInner, pop, hinner, h, Bool.false_eq_true, if_false, List.tail_cons]
  cases assignInner name a rest with
  | none => rfl
  | some inner => rfl

/-- `fs'` is `fs` after assignments of names that satisfy `P`. -/
inductive Assigned (P : String → Prop) (fs : Frames) : Frames → Prop where
  | none : Assigned P fs fs
  | next {fs' : Frames} {name : String} (a : Atom) :
    Assigned P fs fs' → P name → Assigned P fs (fs'.assign name a)

theorem Assigned.mono (h : Assigned P fs fs') (hPQ : ∀ name, P name → Q name) :
    Assigned Q fs fs' := by
  induction h with
  | none => exact .none
  | next a _ hname ih => exact .next a ih (hPQ _ hname)

theorem Assigned.trans (h₁ : Assigned P fs₁ fs₂) (h₂ : Assigned P fs₂ fs₃) :
    Assigned P fs₁ fs₃ := by
  induction h₂ with
  | none => exact h₁
  | next a _ hname ih => exact .next a ih hname

/-- What holds of one assignment and of any sequence holds of assignments. -/
theorem Assigned.induct {S : Frames → Frames → Prop} (h : Assigned P fs fs') (refl : ∀ fs, S fs fs)
    (trans : ∀ {fs₁ fs₂ fs₃}, S fs₁ fs₂ → S fs₂ fs₃ → S fs₁ fs₃)
    (one : ∀ fs name a, P name → S fs (fs.assign name a)) : S fs fs' := by
  induction h with
  | none => exact refl fs
  | next a _ hname ih => exact trans ih (one _ _ a hname)

/-! ## What assignments keep -/

/-- Frame by frame, what assignments keep: the frames of procedures have the cells they had, the
global frame may have more. -/
structure Isolated (fs fs' : Frames) : Prop where
  inner : List.Forall₂ Frame.Kept fs.inner fs'.inner
  globals : Frame.Grown fs.globals fs'.globals

theorem Isolated.refl (fs : Frames) : Isolated fs fs :=
  ⟨List.forall₂_same.mpr fun f _ => Frame.Kept.refl f, Frame.Grown.refl fs.globals⟩

theorem Isolated.trans (h₁ : Isolated fs₁ fs₂) (h₂ : Isolated fs₂ fs₃) : Isolated fs₁ fs₃ := by
  have htrans : ∀ {l₁ l₂ l₃ : List Frame}, List.Forall₂ Frame.Kept l₁ l₂ →
      List.Forall₂ Frame.Kept l₂ l₃ → List.Forall₂ Frame.Kept l₁ l₃ := by
    intro l₁ l₂ l₃ h
    induction h generalizing l₃ with
    | nil => intro h'; exact h'
    | cons hf _ ih =>
      intro h'
      obtain ⟨f₃, rest₃, hf', hrest', rfl⟩ := List.forall₂_cons_left_iff.mp h'
      exact .cons (hf.trans hf') (ih hrest')
  exact ⟨htrans h₁.inner h₂.inner, h₁.globals.trans h₂.globals⟩

theorem Isolated.assign (fs : Frames) (name : String) (a : Atom) :
    Isolated fs (fs.assign name a) := by
  obtain ⟨inner, globals⟩ := fs
  induction inner with
  | nil => exact ⟨.nil, Frame.Grown.bind globals name a⟩
  | cons f rest ih =>
    cases h : f.cells.contains name with
    | true =>
      rw [assign_hit rfl h]
      have hrest : List.Forall₂ Frame.Kept rest rest :=
        List.forall₂_same.mpr fun f _ => Frame.Kept.refl f
      exact ⟨.cons (Frame.Kept.bind a h) hrest, Frame.Grown.refl globals⟩
    | false =>
      rw [assign_pass rfl h]
      exact ⟨.cons (Frame.Kept.refl f) ih.inner, ih.globals⟩

theorem Assigned.isolated (h : Assigned P fs fs') : Isolated fs fs' :=
  h.induct Isolated.refl Isolated.trans fun fs name a _ => Isolated.assign fs name a

theorem Isolated.depth (h : Isolated fs fs') : fs'.depth = fs.depth := by
  simp only [Frames.depth, h.inner.length_eq]

theorem Isolated.innermost_test (h : Isolated fs fs') :
    fs'.innermost.test = fs.innermost.test := by
  have hinner := h.inner
  unfold innermost
  cases hfs : fs.inner with
  | nil =>
    rw [hfs, List.forall₂_nil_left_iff] at hinner
    rw [hinner]
    exact h.globals.test
  | cons f rest =>
    rw [hfs, List.forall₂_cons_left_iff] at hinner
    obtain ⟨f', rest', hf, -, hfs'⟩ := hinner
    rw [hfs']
    exact hf.test

/-- The cells of a name, from the innermost frame outwards. -/
def column (fs : Frames) (name : String) : List (Option (Option Atom)) :=
  fs.inner.map (·.cells.get? name) ++ [fs.globals.cells.get? name]

/-- An assignment leaves the cells of other names alone. -/
theorem column_assign {name other : String} (h : foldName name ≠ foldName other) (fs : Frames)
    (a : Atom) : (fs.assign other a).column name = fs.column name := by
  obtain ⟨inner, globals⟩ := fs
  induction inner with
  | nil => simp [assign, assignInner, column, Frame.bind, NameTable.get?_insert, h]
  | cons f rest ih =>
    cases hf : f.cells.contains other with
    | true =>
      rw [assign_hit rfl hf]
      simp [column, Frame.bind, NameTable.get?_insert, h]
    | false =>
      rw [assign_pass rfl hf]
      simpa [column, pop] using ih

theorem Assigned.column {name : String} (h : Assigned P fs fs')
    (hP : ∀ other, P other → foldName name ≠ foldName other) : fs'.column name = fs.column name :=
  h.induct (S := fun fs fs' => fs'.column name = fs.column name) (fun _ => rfl)
    (fun h₁ h₂ => h₂.trans h₁) fun fs other a hother => column_assign (hP other hother) fs a

/-! ## Frames in a run -/

theorem inner_ne_nil_of_depth (h : fs'.depth = fs.depth) (hne : fs.inner ≠ []) :
    fs'.inner ≠ [] := by
  intro hnil
  have hlength : fs.inner.length = 0 := by simpa [depth, hnil] using h.symm
  exact hne (List.eq_nil_of_length_eq_zero hlength)

/-- What a run does to frames. In the innermost frame cells may be added; behind it there are only
assignments, and only of names for which the innermost frame has no cell. -/
structure Evolves (fs fs' : Frames) : Prop where
  depth : fs'.depth = fs.depth
  names (name : String) :
    fs.innermost.cells.contains name = true → fs'.innermost.cells.contains name = true
  outer : fs.inner ≠ [] →
    Assigned (fun name => fs.innermost.cells.contains name = false) fs.pop fs'.pop

namespace Evolves

theorem refl (fs : Frames) : Evolves fs fs :=
  ⟨rfl, fun _ h => h, fun _ => .none⟩

theorem trans (h₁ : Evolves fs₁ fs₂) (h₂ : Evolves fs₂ fs₃) : Evolves fs₁ fs₃ where
  depth := h₂.depth.trans h₁.depth
  names name h := h₂.names name (h₁.names name h)
  outer hne := by
    have hlater := h₂.outer (inner_ne_nil_of_depth h₁.depth hne)
    -- What the innermost frame hides at first it hides later, too.
    refine (h₁.outer hne).trans (hlater.mono fun name hname => ?_)
    cases hfirst : fs₁.innermost.cells.contains name with
    | false => rfl
    | true => rw [h₁.names name hfirst] at hname; exact hname

theorem modifyInnermost (fs : Frames) (change : Frame → Frame)
    (h : ∀ f name, f.cells.contains name = true → (change f).cells.contains name = true) :
    Evolves fs (fs.modifyInnermost change) := by
  refine ⟨fs.depth_modifyInnermost change, ?_, ?_⟩
  · intro name hname
    rw [innermost_modifyInnermost]
    exact h _ name hname
  · intro hne
    rw [pop_modifyInnermost hne]
    exact .none

theorem assign (fs : Frames) (name : String) (a : Atom) : Evolves fs (fs.assign name a) := by
  refine ⟨fs.depth_assign name a, ?_, ?_⟩
  · intro other hother
    cases hinner : fs.inner with
    | nil =>
      have hglobals : fs.innermost = fs.globals := by simp [innermost, hinner]
      rw [hglobals] at hother
      simpa [innermost, Frames.assign, assignInner, hinner] using
        Frame.contains_bind fs.globals name other a hother
    | cons f rest =>
      have hf : fs.innermost = f := by simp [innermost, hinner]
      rw [hf] at hother
      cases h : f.cells.contains name with
      | true => rw [assign_hit hinner h]; exact Frame.contains_bind f name other a hother
      | false => rw [assign_pass hinner h]; exact hother
  · intro hne
    cases hinner : fs.inner with
    | nil => exact absurd hinner hne
    | cons f rest =>
      have hf : fs.innermost = f := by simp [innermost, hinner]
      cases h : f.cells.contains name with
      | true =>
        have hpop : (fs.assign name a).pop = fs.pop := by
          rw [assign_hit hinner h]
          simp [pop, hinner]
        rw [hpop]
        exact .none
      | false =>
        have hpop : (fs.assign name a).pop = fs.pop.assign name a := by
          rw [assign_pass hinner h]
          rfl
        rw [hpop, hf]
        exact .next a .none h

end Evolves

theorem Assigned.evolves (h : Assigned P fs fs') : Evolves fs fs' :=
  h.induct Evolves.refl Evolves.trans fun fs name a _ => Evolves.assign fs name a

/-- A frame that was added and dropped again leaves nothing behind but assignments. -/
theorem Evolves.assigned (h : Evolves fs.push fs') : Assigned (fun _ => True) fs fs'.pop :=
  (h.outer (List.cons_ne_nil _ _)).mono fun _ _ => trivial

end Frames

theorem Frames.Evolves.law : Run.Law fun w w' => Evolves w.frames w'.frames where
  refl w := .refl w.frames
  trans := Evolves.trans
  turtle w _ := .refl w.frames
  assign w name a := .assign w.frames name a
  bindLocal w name a := .modifyInnermost w.frames _ fun f other => f.contains_bind name other a
  declareLocal w name := .modifyInnermost w.frames _ fun f other => f.contains_declare name other
  setTest w flag := .modifyInnermost w.frames ({ · with test := flag }) fun _ _ h => h
  write w _ := .refl w.frames
  setAborted w _ := .refl w.frames
  define {w} _ _ _ _ := .refl w.frames
  counted _ h := h
  called _ h := h
  framed h := h.assigned.evolves

/-- A call does to the frames it finds what some assignments do. -/
theorem invokeDefined_assigned (fuel : Nat) (d : Definition) (args : List Atom) (w : World) :
    (invokeDefined (engineOn fuel) d args w).Ends fun w' =>
      Frames.Assigned (fun _ => True) w.frames w'.frames := by
  have hcongruence := Frames.Evolves.law.congruence
  have hengine := Frames.Evolves.law.engineOn fuel
  have hbody := Frames.Evolves.law.bind (hcongruence.bindAll hengine d args) fun _ =>
    hcongruence.perform hengine d.body
  exact (hbody { w with frames := w.frames.push }).closeFrame fun w' h => h.assigned

/-- A call of a definition, however it ends, gives the caller its frames back: there are as many,
each has the flag of `TEST` it had, those of procedures have the cells they had and the global one
at least those, and no cell has lost its value.

What the procedure declares or binds goes into its own frame and leaves the others alone; and once
its frame has a cell for a name, whatever runs until the frame is dropped leaves the cells of that
name in all other frames as they are. -/
theorem call_isolated (fuel : Nat) (w : World) :
    (∀ (d : Definition) (args : List Atom),
      (invokeDefined (engineOn fuel) d args w).Ends fun w' =>
        w'.frames.depth = w.frames.depth ∧ w.frames.Isolated w'.frames ∧
          w'.frames.innermost.test = w.frames.innermost.test) ∧
    ∀ name : String, w.frames.inner ≠ [] →
      (∀ a, (w.frames.bindLocal name a).pop = w.frames.pop ∧
        (w.frames.bindLocal name a).innermost.cells.contains name = true) ∧
      (w.frames.declareLocal name).pop = w.frames.pop ∧
      (w.frames.declareLocal name).innermost.cells.contains name = true ∧
      (w.frames.innermost.cells.contains name = true → ∀ job,
        (interpret fuel job w).Ends fun w' =>
          w'.frames.innermost.cells.contains name = true ∧
            w'.frames.pop.column name = w.frames.pop.column name) := by
  refine ⟨?_, ?_⟩
  · intro d args
    refine (invokeDefined_assigned fuel d args w).imp fun w' h => ?_
    exact ⟨h.isolated.depth, h.isolated, h.isolated.innermost_test⟩
  · intro name hne
    refine ⟨fun a => ⟨Frames.pop_modifyInnermost hne, ?_⟩, Frames.pop_modifyInnermost hne, ?_, ?_⟩
    · rw [Frames.bindLocal, Frames.innermost_modifyInnermost]
      exact Frame.contains_bind_self _ name a
    · rw [Frames.declareLocal, Frames.innermost_modifyInnermost]
      exact Frame.contains_declare_self _ name
    · intro hname job
      refine ((Frames.Evolves.law.engineOn fuel).run job w).imp fun w' h => ⟨h.names name hname, ?_⟩
      refine (h.outer hne).column fun other hother hfold => ?_
      rw [NameTable.contains_congr _ name other hfold, hother] at hname
      exact absurd hname (by simp)

/-- A procedure with a variable `x` of its own assigns that one, and the global `x` keeps its
value. -/
theorem call_isolated_shadowed : ∃ w w' : World,
    w.frames.inner ≠ [] ∧ w.frames.innermost.cells.contains "x" = true ∧
    interpret 4 (.execute [.word "make", .word "\"X", .word "\"b"] false) w = .done none w' ∧
    w'.frames.innermost.cells.contains "x" = true ∧
    w'.frames.pop.column "x" = [some (some (.word "a"))] := by
  let w : World :=
    { procedures := ⟨[("make", ⟨"MAKE", .primitive .make, .fixed 2⟩)]⟩
      frames := ⟨[{ cells := ⟨[("x", none)]⟩ }], { cells := ⟨[("x", some (.word "a"))]⟩ }⟩ }
  let job : Job := .execute [.word "make", .word "\"X", .word "\"b"] false
  have hne : w.frames.inner ≠ [] := List.cons_ne_nil _ _
  have hname : w.frames.innermost.cells.contains "x" = true := rfl
  have hends := ((call_isolated 4 w).2 "x" hne).2.2.2 hname job
  have hrun : interpret 4 job w = .done none _ := rfl
  rw [hrun] at hends
  exact ⟨w, _, hne, hname, hrun, hends⟩

end TurtleLogo
