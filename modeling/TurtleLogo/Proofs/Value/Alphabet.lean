import TurtleLogo.Proofs.Parse.Arity
import TurtleLogo.Proofs.Parse.Header
import TurtleLogo.Proofs.Source.Content
import TurtleLogo.Proofs.Value.Interpret

set_option autoImplicit false

/-! # Where the words of a program come from

No primitive makes words of its own. So if the words of a program are written in some alphabet, then
so is every word that it ever holds: in a variable, in a definition, in an expression, in a value
that is passed on. What it writes are texts of such values (`World.Over`, `execute_over`). -/

namespace TurtleLogo

variable {S : Char → Prop}

/-! ## Atoms -/

/-- Every word in the atom is written in the alphabet. -/
inductive Atom.Over (S : Char → Prop) : Atom → Prop
  | number (x : Float) : Over S (.number x)
  | word {w : String} : (∀ c ∈ w.toList, S c) → Over S (.word w)
  | list {items : List Atom} : (∀ a ∈ items, Over S a) → Over S (.list items)

namespace Atom.Over

theorem word_iff {w : String} : (Atom.word w).Over S ↔ ∀ c ∈ w.toList, S c := by
  constructor
  · intro h
    cases h with
    | word hw => exact hw
  · exact .word

theorem list_iff {items : List Atom} : (Atom.list items).Over S ↔ ∀ a ∈ items, a.Over S := by
  constructor
  · intro h
    cases h with
    | list hitems => exact hitems
  · exact .list

end Atom.Over

/-- Atoms that are built of words in the alphabet are over it. -/
theorem Atom.Built.over {p : String → Prop} (hp : ∀ w, p w → ∀ c ∈ w.toList, S c) {a : Atom}
    (h : a.Built p) : a.Over S := by
  induction h with
  | word hw => exact .word (hp _ hw)
  | list _ ih => exact .list ih

/-! ## Procedures and expressions -/

/-- The defaults and the body of the definition are over the alphabet. -/
structure Definition.Over (S : Char → Prop) (d : Definition) : Prop where
  defaults : ∀ input ∈ d.optional, ∀ a ∈ input.2, a.Over S
  body : ∀ a ∈ d.body, a.Over S

/-- A definition is over the alphabet of the atoms that spell it. -/
theorem Definition.Over.of_parse {atoms rest : List Atom} {name : String} {d : Definition}
    (h : Definition.parse atoms = (.ok (name, d), rest)) (hatoms : ∀ a ∈ atoms, a.Over S) :
    d.Over S := by
  obtain ⟨declared, close, -, rfl⟩ := Definition.spells_of_parse h
  constructor
  · intro input hinput a ha
    have hlist : (Definition.optionalList input).Over S := by
      refine hatoms _ ?_
      have hmem := List.mem_map_of_mem (f := Definition.optionalList) hinput
      simp only [Definition.spelling, List.mem_append, hmem, true_or, or_true]
    exact Atom.Over.list_iff.mp hlist a (List.mem_cons_of_mem _ ha)
  · intro a ha
    exact hatoms a (by simp [Definition.spelling, ha])

/-- The procedure is a definition over the alphabet or a primitive, but none of a host, which may
have words of its own. -/
def Procedure.Over (S : Char → Prop) (p : Procedure) : Prop :=
  match p.body with
  | .primitive _ | .deferred _ | .definer => True
  | .host _ => False
  | .defined d => d.Over S

/-- All procedures of the registry are over the alphabet. -/
def Registry.Over (S : Char → Prop) (r : Registry) : Prop :=
  ∀ (name : String) (p : Procedure), r.get? name = some p → p.Over S

namespace Registry.Over

variable {r r' : Registry}

theorem insert (h : r.Over S) {name : String} {p : Procedure} (hp : p.Over S) :
    Registry.Over S (NameTable.insert r name p) := by
  intro other q hget
  rw [NameTable.get?_insert] at hget
  split at hget
  · exact Option.some.inj hget ▸ hp
  · exact h other q hget

theorem install (h : r.Over S) {name : String} {d : Definition} (hd : d.Over S)
    (hinstall : r.install name d = .ok r') : r'.Over S := by
  obtain ⟨rfl, -⟩ := Registry.install_ok hinstall
  have hentry : (d.entry name).Over S := hd
  exact h.insert hentry

theorem standard : Registry.standard.Over S := by
  refine Registry.standard_induction ?_ (fun _ _ _ _ _ hr => hr.insert trivial)
    (fun _ _ _ _ _ hr => hr.insert trivial) fun _ hr => hr.insert trivial
  intro name p hget
  simp [NameTable.get?] at hget

end Registry.Over

/-- The constants and the procedures in the expression are over the alphabet. -/
inductive Expr.Over (S : Char → Prop) : Expr → Prop
  | constant {a : Atom} : a.Over S → Over S (.constant a)
  | thing (name : String) : Over S (.thing name)
  | nothing : Over S .nothing
  | negate {e : Expr} : Over S e → Over S (.negate e)
  | binary (op : Operator) {left right : Expr} : Over S left → Over S right →
    Over S (.binary op left right)
  | call {p : Procedure} {inputs : List Expr} : p.Over S → (∀ e ∈ inputs, Over S e) →
    Over S (.call p inputs)

/-- A state of reading over the alphabet. -/
structure Parse.State.Over (S : Char → Prop) (s : Parse.State) : Prop where
  atoms : ∀ a ∈ s.atoms, a.Over S
  registry : s.registry.Over S

/-- What is read is over the alphabet of the atoms: a quoted word loses its mark, nothing else. -/
theorem Parse.State.Over.forms : Parse.Forms (Parse.State.Over S) (Atom.Over S) (Expr.Over S) where
  atom hs ha := hs.atoms _ ha
  left hs hsuffix := ⟨fun a ha => hs.atoms a (hsuffix.subset ha), hs.registry⟩
  define {s rest given d r} hs hparse hinstall := by
    have hsuffix : rest <:+ s.atoms := by
      simpa [hparse] using Definition.parse_suffix s.atoms
    refine ⟨fun a ha => hs.atoms a (hsuffix.subset ha), ?_⟩
    exact hs.registry.install (.of_parse hparse hs.atoms) hinstall
  constant := .constant
  number x := .constant (.number x)
  unquoted {w text} hw htext := by
    refine .constant (.word fun c hc => ?_)
    rw [String.toList_ofList] at hc
    exact Atom.Over.word_iff.mp hw c (htext ▸ List.mem_cons_of_mem _ hc)
  thing := .thing
  nothing := .nothing
  negate := .negate
  binary := .binary
  natural hs hget _ hinputs := .call (hs.registry _ _ hget) hinputs
  accepted hs hget _ hinputs := .call (hs.registry _ _ hget) hinputs

/-! ## Variables -/

/-- The values in the frame are over the alphabet. -/
def Frame.Over (S : Char → Prop) (f : Frame) : Prop :=
  ∀ (name : String) (a : Atom), f.cells.get? name = some (some a) → a.Over S

namespace Frame.Over

variable {f : Frame}

theorem bind (h : f.Over S) (name : String) {a : Atom} (ha : a.Over S) :
    (f.bind name a).Over S := by
  intro other b hget
  rw [Frame.bind, NameTable.get?_insert] at hget
  split at hget
  · simp only [Option.some.injEq] at hget
    exact hget ▸ ha
  · exact h other b hget

theorem declare (h : f.Over S) (name : String) : (f.declare name).Over S := by
  unfold Frame.declare
  split
  · exact h
  · intro other b hget
    rw [NameTable.get?_insert] at hget
    split at hget
    · simp at hget
    · exact h other b hget

end Frame.Over

/-- The values in all frames are over the alphabet. -/
structure Frames.Over (S : Char → Prop) (fs : Frames) : Prop where
  inner : ∀ f ∈ fs.inner, f.Over S
  globals : fs.globals.Over S

namespace Frames.Over

variable {fs : Frames} {name : String} {a : Atom}

theorem of_lookupFrom {globals : Frame} {inner : List Frame} (hglobals : globals.Over S)
    (hinner : ∀ f ∈ inner, f.Over S)
    (hcell : Frames.lookupFrom globals name inner = some (some a)) : a.Over S := by
  induction inner with
  | nil => exact hglobals name a hcell
  | cons f rest ih =>
    obtain ⟨hf, hrest⟩ := List.forall_mem_cons.mp hinner
    rw [Frames.lookupFrom] at hcell
    split at hcell
    · -- The innermost frame that has the name decides.
      next cell hget =>
      rw [hcell] at hget
      exact hf name a hget
    · exact ih hrest hcell

theorem get? (h : fs.Over S) (hget : fs.get? name = some a) : a.Over S := by
  have hcell : fs.lookup name = some (some a) := Option.join_eq_some_iff.mp hget
  exact of_lookupFrom h.globals h.inner hcell

theorem modifyInnermost (h : fs.Over S) {change : Frame → Frame}
    (hchange : ∀ f, f.Over S → (change f).Over S) : (fs.modifyInnermost change).Over S := by
  unfold Frames.modifyInnermost
  split
  · next hnil => exact ⟨h.inner, hchange _ h.globals⟩
  · next f rest hcons =>
    obtain ⟨hf, hrest⟩ := List.forall_mem_cons.mp (hcons ▸ h.inner)
    exact ⟨List.forall_mem_cons.mpr ⟨hchange f hf, hrest⟩, h.globals⟩

theorem setTest (h : fs.Over S) (flag : Option Bool) : (fs.setTest flag).Over S :=
  h.modifyInnermost fun _ hf name a hget => hf name a hget

theorem of_assignInner (ha : a.Over S) {inner inner' : List Frame}
    (hinner : ∀ f ∈ inner, f.Over S) (hassign : Frames.assignInner name a inner = some inner') :
    ∀ f ∈ inner', f.Over S := by
  induction inner generalizing inner' with
  | nil => cases hassign
  | cons f rest ih =>
    obtain ⟨hf, hrest⟩ := List.forall_mem_cons.mp hinner
    rw [Frames.assignInner] at hassign
    split at hassign
    · obtain rfl := Option.some.inj hassign
      exact List.forall_mem_cons.mpr ⟨hf.bind name ha, hrest⟩
    · obtain ⟨rest', hrest', rfl⟩ := Option.map_eq_some_iff.mp hassign
      exact List.forall_mem_cons.mpr ⟨hf, ih hrest hrest'⟩

theorem assign (h : fs.Over S) (name : String) (ha : a.Over S) : (fs.assign name a).Over S := by
  unfold Frames.assign
  split
  · next inner hassign => exact ⟨of_assignInner ha h.inner hassign, h.globals⟩
  · exact ⟨h.inner, h.globals.bind name ha⟩

theorem push (h : fs.Over S) : fs.push.Over S := by
  refine ⟨List.forall_mem_cons.mpr ⟨?_, h.inner⟩, h.globals⟩
  intro name a hget
  simp [NameTable.get?] at hget

theorem pop (h : fs.Over S) : fs.pop.Over S :=
  ⟨fun f hf => h.inner f (List.mem_of_mem_tail hf), h.globals⟩

end Frames.Over

/-! ## Programs -/

/-- The line shows values over the alphabet, separated by single spaces. -/
def Written (S : Char → Prop) (line : String) : Prop :=
  ∃ (values : List Atom) (text : Atom → String), (∀ a ∈ values, a.Over S) ∧
    (text = Atom.display ∨ text = Atom.plain) ∧ line = " ".intercalate (values.map text)

/-- All that a program holds in the state is over the alphabet, and so is all that it has
written. -/
structure World.Over (S : Char → Prop) (w : World) : Prop where
  procedures : w.procedures.Over S
  frames : w.frames.Over S
  lines : ∀ line ∈ w.lines, Written S line

/-- An alphabet is a discipline for the values of a program. -/
theorem World.Over.discipline :
    Run.Discipline (World.Over S) (Atom.Over S) (Expr.Over S) where
  number := .number
  list := Atom.Over.list_iff
  value hw hvalue := hw.frames.get? hvalue
  turtle _ hw := ⟨hw.procedures, hw.frames, hw.lines⟩
  repcount _ hw := ⟨hw.procedures, hw.frames, hw.lines⟩
  calls _ hw := ⟨hw.procedures, hw.frames, hw.lines⟩
  assign name _ hw ha := ⟨hw.procedures, hw.frames.assign name ha, hw.lines⟩
  bindLocal name _ hw ha :=
    ⟨hw.procedures, hw.frames.modifyInnermost fun _ hf => hf.bind name ha, hw.lines⟩
  declareLocal name hw :=
    ⟨hw.procedures, hw.frames.modifyInnermost fun _ hf => hf.declare name, hw.lines⟩
  setTest flag hw := ⟨hw.procedures, hw.frames.setTest flag, hw.lines⟩
  push hw := ⟨hw.procedures, hw.frames.push, hw.lines⟩
  pop hw := ⟨hw.procedures, hw.frames.pop, hw.lines⟩
  write {w args text} hw hargs htext := by
    refine ⟨hw.procedures, hw.frames, fun line hline => ?_⟩
    rcases Array.mem_push.mp hline with hold | rfl
    · exact hw.lines line hold
    · exact ⟨args, text, hargs, htext, rfl⟩
  read {w atoms} hw hatoms := by
    have hread := Parse.State.Over.forms.expression atoms.length w.parseContext
      ⟨atoms, w.procedures⟩ ⟨hatoms, hw.procedures⟩
    rcases Engine.parse_cases atoms w with ⟨e, s, hs, hparse⟩ | ⟨f, s, hs, hparse⟩
    · rw [show Parse.expression _ _ _ = Parse.Result.ok e s from hs] at hread
      rw [hparse]
      exact ⟨⟨hread.1.registry, hw.frames, hw.lines⟩, hread.2, hread.1.atoms⟩
    · rw [show Parse.expression _ _ _ = Parse.Result.fail f s from hs] at hread
      rw [hparse]
      exact ⟨hread.1.registry, hw.frames, hw.lines⟩
  constant h := by
    cases h with
    | constant ha => exact ha
  negate h := by
    cases h with
    | negate he => exact he
  binary h := by
    cases h with
    | binary _ hleft hright => exact ⟨hleft, hright⟩
  inputs h := by
    cases h with
    | call _ hinputs => exact hinputs
  defined {p _ d} h hbody := by
    cases h with
    | call hp _ =>
      simp only [Procedure.Over, hbody] at hp
      exact ⟨hp.defaults, hp.body⟩
  host {p _ act} h hbody := by
    cases h with
    | call hp _ => simp only [Procedure.Over, hbody] at hp

/-- However a run of instructions over an alphabet ends, the state is over the alphabet. -/
theorem execute_over (fuel : Nat) {code : List Atom} (hcode : ∀ a ∈ code, a.Over S) (keep : Bool)
    {w : World} (hw : w.Over S) : (interpret fuel (.execute code keep) w).Ends (World.Over S) :=
  (World.Over.discipline.interpret fuel (show (Job.execute code keep).Allowed _ _ from hcode) w
    hw).ends

end TurtleLogo
