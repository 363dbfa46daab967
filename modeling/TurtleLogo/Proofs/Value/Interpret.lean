import TurtleLogo.Proofs.Value.Primitive

set_option autoImplicit false

/-! # The values of programs

From the primitives to whole jobs: under a discipline every job on allowed atoms gives allowed
values, on any amount of fuel (`Discipline.interpret`). -/

namespace TurtleLogo

/-! ## Operators -/

namespace Operator

variable {op : Operator} {a b v : Atom} {x y : Float}

theorem compute_ok (h : op.compute x y = .ok v) : ∃ z, v = .number z := by
  cases op with
  | divide | modulo =>
    simp only [compute] at h
    split at h
    · cases h
    · exact ⟨_, (Except.ok.inj h).symm⟩
  | _ => exact ⟨_, (Except.ok.inj h).symm⟩

/-- All operators have numbers for values. -/
theorem apply_ok (h : op.apply a b = .ok v) : ∃ z, v = .number z := by
  unfold apply at h
  split at h
  · exact ⟨_, (Except.ok.inj h).symm⟩
  · exact ⟨_, (Except.ok.inj h).symm⟩
  · cases ha : op.operand a with
    | error c =>
      rw [ha] at h
      cases h
    | ok x =>
      cases hb : op.operand b with
      | error c =>
        rw [ha, hb] at h
        cases h
      | ok y =>
        rw [ha, hb] at h
        exact compute_ok h

end Operator

/-- The atoms and expressions of a job are allowed. -/
def Job.Allowed (V : Atom → Prop) (E : Expr → Prop) : Job → Prop
  | execute code _ => ∀ a ∈ code, V a
  | force e => E e
  | invoke p inputs => E (.call p inputs)

namespace Run

variable {I : World → Prop} {V : Atom → Prop} {E : Expr → Prop} {eng : Engine}

namespace Discipline

/-! ## Instructions and expressions -/

theorem instructions (he : Obeys I V E eng) (keep : Bool) (n : Nat) :
    ∀ (last : Option Atom) (atoms : List Atom), Allowed V last → (∀ a ∈ atoms, V a) →
      Gives I V (Allowed V) (TurtleLogo.instructions eng keep n last atoms) := by
  induction n with
  | zero =>
    intro last atoms hlast _
    rcases atoms with _ | ⟨a, ts⟩
    · exact .done hlast
    · exact .done hlast
  | succ n ih =>
    intro last atoms hlast hatoms
    rcases atoms with _ | ⟨a, ts⟩
    · exact .done hlast
    · refine (he.evaluate hatoms).bind fun x hx => ?_
      obtain ⟨v, rest⟩ := x
      cases v with
      | none => exact ih none rest .none hx.2
      | some b =>
        dsimp only
        split
        · exact ih (some b) rest hx.1 hx.2
        · exact .fail _

theorem forceNegate (h : Discipline I V E) (he : Obeys I V E eng) {e : Expr} (hexpr : E e) :
    Gives I V (Allowed V) (TurtleLogo.forceNegate eng e) := by
  refine (he.demand hexpr "-").bind fun a _ => ?_
  have hnumber : Gives I V (fun _ => True)
      (Run.require (.unsuitable .notANumber "-" a) a.number?) := .require fun _ _ => trivial
  exact hnumber.bind fun n _ => .done (.some (h.number (-n)))

theorem forceBinary (h : Discipline I V E) (he : Obeys I V E eng) (op : Operator)
    {left right : Expr} (hleft : E left) (hright : E right) :
    Gives I V (Allowed V) (TurtleLogo.forceBinary eng op left right) := by
  refine (he.demand hleft op.symbol).bind fun a _ => (he.demand hright op.symbol).bind fun b _ => ?_
  have happly : Gives I V V (Run.ofExcept (op.apply a b)) := by
    cases hv : op.apply a b with
    | error cause => exact .fail cause
    | ok v =>
      obtain ⟨z, rfl⟩ := Operator.apply_ok hv
      exact .done (h.number z)
  exact happly.bind fun v hv => .done (.some hv)

theorem enter (h : Discipline I V E) (name : String) :
    Gives I V (fun _ => True) (TurtleLogo.enter name) := by
  intro w hw
  by_cases habort : w.aborted = true
  · rw [enter_aborted habort]
    exact hw
  · rcases Nat.lt_or_ge w.calls.size w.limit with hdepth | hdeep
    · rw [enter_done (by simpa using habort) hdepth]
      exact ⟨h.calls _ hw, trivial⟩
    · rw [enter_tooDeep (by simpa using habort) hdeep]
      exact hw

theorem leaving (h : Discipline I V E) {m : Run (Option Atom)} (hm : Gives I V (Allowed V) m) :
    Gives I V (Allowed V) (TurtleLogo.leaving m) := by
  intro w hw
  have hs := hm w hw
  rw [leaving_apply]
  generalize m w = o at hs
  cases o with
  | done v w₁ => exact ⟨h.calls _ hs.1, hs.2⟩
  | exhausted => exact trivial
  | exit e w₁ =>
    cases e with
    | fault f => exact h.calls _ hs
    | output a => exact ⟨h.calls _ hs.1, hs.2⟩
    | stop => exact h.calls _ hs

theorem call (h : Discipline I V E) (he : Obeys I V E eng) {p : Procedure} {inputs : List Expr}
    (hexpr : E (.call p inputs)) : Gives I V (Allowed V) (TurtleLogo.call eng p inputs) :=
  (h.enter p.name).bind fun _ _ => h.leaving (he.invoke hexpr)

theorem force (h : Discipline I V E) (he : Obeys I V E eng) {e : Expr} (hexpr : E e) :
    Gives I V (Allowed V) (TurtleLogo.force eng e) := by
  cases e with
  | constant a => exact .done (.some (h.constant hexpr))
  | thing name =>
    refine Gives.world.bind fun w hw => ?_
    have hvalue : ∀ a ∈ w.value? name, V a := fun a ha => h.value hw ha
    exact (Gives.require hvalue).bind fun a ha => .done (.some ha)
  | negate e => exact h.forceNegate he (h.negate hexpr)
  | binary op left right =>
    exact h.forceBinary he op (h.binary hexpr).1 (h.binary hexpr).2
  | call p inputs => exact h.call he hexpr
  | nothing => exact .done .none

theorem forceInputs (he : Obeys I V E eng) (name : String) {inputs : List Expr}
    (hinputs : ∀ e ∈ inputs, E e) :
    Gives I V (fun args => ∀ a ∈ args, V a) (TurtleLogo.forceInputs eng name inputs) := by
  induction inputs with
  | nil => exact .done (by simp)
  | cons e rest ih =>
    obtain ⟨hhead, hrest⟩ := List.forall_mem_cons.mp hinputs
    refine (he.demand hhead name).bind fun a ha => (ih hrest).bind fun args hargs => ?_
    exact .done (List.forall_mem_cons.mpr ⟨ha, hargs⟩)

/-! ## Definitions -/

theorem binding (h : Discipline I V E) (name : String) {a : Atom} (ha : V a) :
    Gives I V (fun _ => True) (Run.onFrames (·.bindLocal name a)) :=
  .modify fun _ hw => h.bindLocal name hw ha

theorem bindInputs (h : Discipline I V E) (names : List String) :
    ∀ args, (∀ a ∈ args, V a) →
      Gives I V (fun rest => ∀ a ∈ rest, V a) (TurtleLogo.bindInputs names args) := by
  induction names with
  | nil => intro args hargs; exact .done hargs
  | cons name names ih =>
    intro args hargs
    rcases args with _ | ⟨a, args⟩
    · exact .done (by simp)
    · obtain ⟨ha, hrest⟩ := List.forall_mem_cons.mp hargs
      exact (h.binding name ha).bind fun _ _ => ih args hrest

theorem bindOptional (h : Discipline I V E) (he : Obeys I V E eng)
    {optional : List (String × List Atom)} (hdefaults : ∀ input ∈ optional, ∀ a ∈ input.2, V a) :
    ∀ args, (∀ a ∈ args, V a) →
      Gives I V (fun rest => ∀ a ∈ rest, V a) (TurtleLogo.bindOptional eng optional args) := by
  induction optional with
  | nil => intro args hargs; exact .done hargs
  | cons input optional ih =>
    obtain ⟨name, default⟩ := input
    obtain ⟨hdefault, hmore⟩ := List.forall_mem_cons.mp hdefaults
    intro args hargs
    rcases args with _ | ⟨a, args⟩
    · have hvalue : Gives I V V (TurtleLogo.defaultValue eng name default) :=
        (he.evaluate hdefault).bind fun x hx => .require hx.1
      exact hvalue.bind fun a ha => (h.binding name ha).bind fun _ _ => ih hmore [] hargs
    · obtain ⟨ha, hrest⟩ := List.forall_mem_cons.mp hargs
      exact (h.binding name ha).bind fun _ _ => ih hmore args hrest

theorem bindRest (h : Discipline I V E) (rest : Option String) {args : List Atom}
    (hargs : ∀ a ∈ args, V a) : Gives I V (fun _ => True) (TurtleLogo.bindRest rest args) := by
  cases rest with
  | none => exact .done trivial
  | some name => exact h.binding name (h.list.mpr hargs)

/-- A value that `OUTPUT` passes on is the value of the whole. -/
theorem framed (h : Discipline I V E) {m : Run Unit} (hm : Gives I V (fun _ => True) m) :
    Gives I V (Allowed V) (TurtleLogo.framed m) := by
  intro w hw
  have hs := hm _ (h.push hw)
  rw [framed_apply]
  generalize m { w with frames := w.frames.push } = o at hs
  cases o with
  | done v w₁ => exact ⟨h.pop hs.1, .none⟩
  | exhausted => exact trivial
  | exit e w₁ =>
    -- Only a fault goes on; the other two exits end at the frame.
    cases e with
    | fault f => exact h.pop hs
    | output a => exact ⟨h.pop hs.1, .some hs.2⟩
    | stop => exact ⟨h.pop hs, .none⟩

theorem invokeDefined (h : Discipline I V E) (he : Obeys I V E eng) {d : Definition}
    (hdefaults : ∀ input ∈ d.optional, ∀ a ∈ input.2, V a) (hbody : ∀ a ∈ d.body, V a)
    {args : List Atom} (hargs : ∀ a ∈ args, V a) :
    Gives I V (Allowed V) (TurtleLogo.invokeDefined eng d args) := by
  have hbind : Gives I V (fun _ => True) (TurtleLogo.bindAll eng d args) := by
    refine (h.bindInputs d.inputs args hargs).bind fun args hargs => ?_
    exact (h.bindOptional he hdefaults args hargs).bind fun args hargs => h.bindRest d.rest hargs
  exact h.framed (hbind.bind fun _ _ => he.perform hbody)

/-! ## Jobs -/

theorem invoke (h : Discipline I V E) (he : Obeys I V E eng) {p : Procedure} {inputs : List Expr}
    (hexpr : E (.call p inputs)) : Gives I V (Allowed V) (TurtleLogo.invoke eng p inputs) := by
  have hinputs := h.inputs hexpr
  unfold TurtleLogo.invoke
  cases hbody : p.body with
  | deferred q => exact h.applyDeferred he p.name q hinputs
  | definer => exact .done .none
  | primitive q =>
    exact (forceInputs he p.name hinputs).bind fun args hargs => h.applyPrimitive he p.name q hargs
  | host act => exact absurd hbody (h.host hexpr)
  | defined d =>
    obtain ⟨hdefaults, hcode⟩ := h.defined hexpr hbody
    refine (forceInputs he p.name hinputs).bind fun args hargs => ?_
    exact h.invokeDefined he hdefaults hcode hargs

theorem step (h : Discipline I V E) (he : Obeys I V E eng) {job : Job} (hjob : job.Allowed V E) :
    Gives I V (Allowed V) (TurtleLogo.step eng job) := by
  cases job with
  | execute code keep => exact instructions he keep code.length none code .none hjob
  | force e => exact h.force he hjob
  | invoke p inputs => exact h.invoke he hjob

/-- Every job on allowed atoms and expressions gives an allowed value, if it gives one. -/
theorem interpret (h : Discipline I V E) (fuel : Nat) :
    ∀ {job : Job}, job.Allowed V E → Gives I V (Allowed V) (TurtleLogo.interpret fuel job) := by
  induction fuel with
  | zero => intro job _; exact .exhausted
  | succ fuel ih =>
    intro job hjob
    -- What a job asks of its engine are jobs on less fuel.
    have hengine : Obeys I V E (engineOn fuel) := by
      refine ⟨fun hatoms w hw => h.read hw hatoms, fun {code} keep hcode => ?_,
        fun {e} hexpr => ?_, fun {p inputs} hexpr => ?_⟩
      · exact ih (show (Job.execute code keep).Allowed V E from hcode)
      · exact ih (show (Job.force e).Allowed V E from hexpr)
      · exact ih (show (Job.invoke p inputs).Allowed V E from hexpr)
    rw [interpret_eq_step]
    exact h.step hengine hjob

end Discipline

end Run

end TurtleLogo
