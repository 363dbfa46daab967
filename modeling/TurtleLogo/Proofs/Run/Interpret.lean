import TurtleLogo.Proofs.Run.Primitive

set_option autoImplicit false

/-! # The interpreter respects what running respects

From the primitives to whole jobs. The walk ends in `Compatible.interpret`: a compatible property
that frames, hosts and calls respect, too, and that allows for runs to be cut off, holds of the runs
of a sound job on any amounts of fuel. -/

namespace TurtleLogo

/-! ## Faults of operators -/

namespace Operator

variable {op : Operator} {a b : Atom} {x y : Float} {cause : Cause}

theorem operand_error (h : op.operand a = .error cause) :
    cause = .unsuitable .notANumber op.symbol a := by
  unfold operand at h
  split at h
  · cases h
  · exact (Except.error.inj h).symm

theorem compute_error (h : op.compute x y = .error cause) : cause = .divisionByZero := by
  cases op with
  | divide | modulo =>
    simp only [compute] at h
    split at h
    · exact (Except.error.inj h).symm
    · cases h
  | _ => cases h

theorem apply_error (h : op.apply a b = .error cause) : cause.isReserved = false := by
  unfold apply at h
  split at h
  · cases h
  · cases h
  · cases ha : op.operand a with
    | error c =>
      rw [ha] at h
      obtain rfl := Except.error.inj h
      rw [operand_error ha]
      rfl
    | ok x =>
      cases hb : op.operand b with
      | error c =>
        rw [ha, hb] at h
        obtain rfl := Except.error.inj h
        rw [operand_error hb]
        rfl
      | ok y =>
        rw [ha, hb] at h
        rw [compute_error h]
        rfl

end Operator

/-- The expressions whose values an operator works on. -/
def Expr.operands : Expr → List Expr
  | negate operand => [operand]
  | binary _ left right => [left, right]
  | constant _ | thing _ | call _ _ | nothing => []

/-- What holds of an expression if it holds of the operands holds of all expressions. -/
theorem Expr.operand_induction {P : Expr → Prop} (h : ∀ e, (∀ e' ∈ e.operands, P e') → P e) :
    ∀ e, P e
  | constant a => h _ (by simp [operands])
  | thing name => h _ (by simp [operands])
  | negate e => h _ (by simpa [operands] using operand_induction h e)
  | binary op left right => by
    have hleft := operand_induction h left
    have hright := operand_induction h right
    exact h _ (by simp [operands, hleft, hright])
  | call p inputs => h _ (by simp [operands])
  | nothing => h _ (by simp [operands])

namespace Run

variable {ι : Type} {least : ι} {Sound : Expr → Prop} {R : (α : Type) → (ι → Run α) → Prop}
variable {eng : ι → Engine}

/-! ## Instructions and expressions -/

namespace Evaluable

theorem instructions (h : Evaluable Sound R) (he : Evaluators Sound R eng) (keep : Bool) (n : Nat) :
    ∀ (last : Option Atom) (atoms : List Atom),
      R _ fun i => TurtleLogo.instructions (eng i) keep n last atoms := by
  induction n with
  | zero =>
    intro last atoms
    cases atoms with
    | nil => exact h.done last
    | cons a ts => exact h.done last
  | succ n ih =>
    intro last atoms
    cases atoms with
    | nil => exact h.done last
    | cons a ts =>
      refine h.bind (h.evaluate he _) fun x => ?_
      obtain ⟨v, rest⟩ := x
      cases v with
      | none => exact ih none rest
      | some a =>
        dsimp only
        split
        · exact ih (some a) rest
        · exact h.fail _ rfl

theorem forceNegate (h : Evaluable Sound R) {e : Expr} (hforce : R _ fun i => (eng i).force e) :
    R _ fun i => TurtleLogo.forceNegate (eng i) e :=
  h.bind (h.demand hforce "-") fun a => h.bind (h.require _ rfl a.number?) fun n =>
    h.done (some (Atom.number (-n)))

theorem applyOperator (h : Evaluable Sound R) (op : Operator) (a b : Atom) :
    R _ fun _ => Run.ofExcept (op.apply a b) := by
  cases happly : op.apply a b with
  | ok v => exact h.done v
  | error cause => exact h.fail cause (op.apply_error happly)

theorem forceBinary (h : Evaluable Sound R) (op : Operator) {left right : Expr}
    (hleft : R _ fun i => (eng i).force left) (hright : R _ fun i => (eng i).force right) :
    R _ fun i => TurtleLogo.forceBinary (eng i) op left right :=
  h.bind (h.demand hleft op.symbol) fun a => h.bind (h.demand hright op.symbol) fun b =>
    h.bind (h.applyOperator op a b) fun v => h.done (some v)

/-- An expression is evaluated as the property has it if its operands are and, where it is a call,
the call is made so. -/
theorem force (h : Evaluable Sound R) {e : Expr}
    (hoperands : ∀ e' ∈ e.operands, R _ fun i => (eng i).force e')
    (hcall : ∀ p inputs, e = .call p inputs → R _ fun i => TurtleLogo.call (eng i) p inputs) :
    R _ fun i => TurtleLogo.force (eng i) e := by
  cases e with
  | constant a => exact h.done (some a)
  | thing name => exact h.value name fun a => h.bind (h.require _ rfl a) fun a => h.done (some a)
  | negate e => exact h.forceNegate (hoperands e (by simp [Expr.operands]))
  | binary op left right =>
    exact h.forceBinary op (hoperands left (by simp [Expr.operands]))
      (hoperands right (by simp [Expr.operands]))
  | call p inputs => exact hcall p inputs rfl
  | nothing => exact h.done none

/-- The operands of a sound expression are sound. -/
theorem operands (h : Evaluable Sound R) {e : Expr} (hs : Sound e) :
    ∀ e' ∈ e.operands, Sound e' := by
  cases e with
  | negate e => simpa [Expr.operands] using h.negate hs
  | binary op left right => simpa [Expr.operands] using h.binary hs
  | _ => simp [Expr.operands]

end Evaluable

namespace Compatible

/-- There are as many values as inputs. -/
theorem forceInputs (h : Compatible least Sound R) (he : Engines least Sound R eng) (name : String)
    {α : Type} (inputs : List Expr) (hs : ∀ e ∈ inputs, Sound e) :
    ∀ {k : ι → List Atom → Run α},
      (∀ args, args.length = inputs.length → R α fun i => k i args) →
        R α fun i => TurtleLogo.forceInputs (eng i) name inputs >>= k i := by
  induction inputs with
  | nil =>
    intro k hk
    exact hk [] rfl
  | cons e rest ih =>
    intro k hk
    obtain ⟨hhead, hrest⟩ := List.forall_mem_cons.mp hs
    simp only [TurtleLogo.forceInputs, bind_assoc]
    refine h.bind (h.demand he hhead name) fun a => ih hrest fun args hlength => ?_
    exact hk (a :: args) (congrArg (· + 1) hlength)

/-! ## Definitions -/

theorem bindInputs (h : Compatible least Sound R) (names : List String) :
    ∀ args, R _ fun _ => TurtleLogo.bindInputs names args := by
  induction names with
  | nil => intro args; exact h.done args
  | cons name names ih =>
    intro args
    cases args with
    | nil => exact h.done []
    | cons a args => exact h.bind (h.bindLocal name a) fun _ => ih args

theorem defaultValue (h : Compatible least Sound R) (he : Engines least Sound R eng) (name : String)
    (default : List Atom) : R _ fun i => TurtleLogo.defaultValue (eng i) name default :=
  h.bind (h.evaluate he default) fun x => h.require _ rfl x.1

theorem bindOptional (h : Compatible least Sound R) (he : Engines least Sound R eng)
    (inputs : List (String × List Atom)) :
    ∀ args, R _ fun i => TurtleLogo.bindOptional (eng i) inputs args := by
  induction inputs with
  | nil => intro args; exact h.done args
  | cons input inputs ih =>
    obtain ⟨name, default⟩ := input
    intro args
    cases args with
    | nil =>
      exact h.bind (h.defaultValue he name default) fun a => h.bind (h.bindLocal name a) fun _ =>
        ih []
    | cons a args => exact h.bind (h.bindLocal name a) fun _ => ih args

theorem bindRest (h : Compatible least Sound R) (rest : Option String) (args : List Atom) :
    R _ fun _ => TurtleLogo.bindRest rest args := by
  cases rest with
  | none => exact h.done ()
  | some name => exact h.bindLocal name (.list args)

theorem bindAll (h : Compatible least Sound R) (he : Engines least Sound R eng) (d : Definition)
    (args : List Atom) : R _ fun i => TurtleLogo.bindAll (eng i) d args :=
  h.bind (h.bindInputs d.inputs args) fun args => h.bind (h.bindOptional he d.optional args)
    fun args => h.bindRest d.rest args

/-- A property that running in a frame of one's own respects. -/
def RespectsFrames (R : (α : Type) → (ι → Run α) → Prop) : Prop :=
  ∀ {m : ι → Run Unit}, R Unit m → R _ fun i => framed (m i)

theorem invokeDefined (h : Compatible least Sound R) (hframes : RespectsFrames R)
    (he : Engines least Sound R eng) (d : Definition) (args : List Atom) :
    R _ fun i => TurtleLogo.invokeDefined (eng i) d args :=
  hframes (h.bind (h.bindAll he d args) fun _ => h.perform he d.body)

/-! ## Host primitives and procedures -/

/-- What a property has to allow for if it is to hold of all that hosts do: going on after an early
exit, and ending with one that satisfies `Passes`, as exits do that a host makes up or is handed. -/
structure Attempts (Passes : Exit → Prop) (R : (α : Type) → (ι → Run α) → Prop) : Prop where
  made (kind : FaultKind) (message : String) (stack : List String) :
    Passes (.fault { cause := .host kind message, stack })
  exit {α : Type} {e : Exit} : Passes e → R α fun _ => Run.exit e
  attempt {α β : Type} {m : ι → Run α} {f : ι → Except Exit α → Run β} : R α m →
    (∀ a, R β fun i => f i (.ok a)) → (∀ e, Passes e → R β fun i => f i (.error e)) →
      R β fun i => Run.attempt (m i) (f i)

theorem hostAction (h : Compatible least Sound R) {Passes : Exit → Prop} (ha : Attempts Passes R)
    (hexecute : ∀ code keep, R _ fun i => (eng i).execute code keep) {handed : List Exit}
    (act : HostAction handed) (hhanded : ∀ e ∈ handed, Passes e) :
    R _ fun i => act.perform (eng i) := by
  induction act with
  | finish v => exact h.done v
  | fail kind message stack => exact ha.exit (ha.made kind message stack)
  | stop => exact h.stop
  | output a => exact h.output a
  | passOn e hmem => exact ha.exit (hhanded e hmem)
  | abort next ih => exact h.bind (h.setAborted true) fun _ => ih hhanded
  | resume next ih => exact h.bind (h.setAborted false) fun _ => ih hhanded
  | assign name a next ih => exact h.bind (h.assign name a) fun _ => ih hhanded
  | observe next ih => exact h.look World.glimpse (fun _ _ _ => rfl) fun g => ih g hhanded
  | attempt code keep next ih =>
    refine ha.attempt (hexecute code keep) (fun v => ih (.ok v) hhanded) fun e he => ?_
    exact ih (.error e) (List.forall_mem_cons.mpr ⟨he, hhanded⟩)

/-- A property that whatever a host does in a sound call respects. -/
def RespectsHosts (Sound : Expr → Prop) (R : (α : Type) → (ι → Run α) → Prop) : Prop :=
  ∀ (eng : ι → Engine) (p : Procedure) (act : List Atom → HostAction) (inputs : List Expr),
    Sound (.call p inputs) → p.body = .host act →
    (∀ code keep, R _ fun i => (eng i).execute code keep) →
      ∀ args, R _ fun i => (act args).perform (eng i)

theorem respectsHosts (h : Compatible least Sound R) {Passes : Exit → Prop}
    (ha : Attempts Passes R) : RespectsHosts Sound R :=
  fun _ _ _ _ _ _ hexecute args => h.hostAction ha hexecute (_ : HostAction) (by simp)

theorem invoke (h : Compatible least Sound R) (hframes : RespectsFrames R)
    (hhosts : RespectsHosts Sound R) (he : Engines least Sound R eng) {p : Procedure}
    {inputs : List Expr} (hs : Sound (.call p inputs)) :
    R _ fun i => TurtleLogo.invoke (eng i) p inputs := by
  have hinputs := h.inputs hs
  have hsupplied := h.supplied hs
  have hloop : p.isLoop = true → CutsOff least R := h.loops hs
  unfold Procedure.needs at hsupplied
  unfold Procedure.isLoop at hloop
  unfold TurtleLogo.invoke
  cases hbody : p.body with
  | deferred q =>
    rw [hbody] at hsupplied hloop
    exact h.applyDeferred he p.name q hloop inputs hinputs hsupplied
  | definer => exact h.done none
  | primitive q =>
    rw [hbody] at hsupplied hloop
    refine h.forceInputs he p.name inputs hinputs fun args hlength => ?_
    exact h.applyPrimitive he p.name q hloop args (hlength ▸ hsupplied)
  | host act =>
    exact h.forceInputs he p.name inputs hinputs fun args _ =>
      hhosts eng p act inputs hs hbody he.execute args
  | defined d =>
    exact h.forceInputs he p.name inputs hinputs fun args _ =>
      h.invokeDefined hframes he d args

/-! ## Jobs -/

theorem step (h : Compatible least Sound R) (hframes : RespectsFrames R)
    (hhosts : RespectsHosts Sound R) (he : Engines least Sound R eng) {job : Job}
    (hs : job.Sound Sound) :
    R _ fun i => TurtleLogo.step (eng i) job := by
  cases job with
  | execute code keep => exact h.instructions he.toEvaluators keep code.length none code
  | force e =>
    refine h.force (fun e' hmem => he.force (h.operands hs e' hmem)) fun p inputs heq => ?_
    exact he.call (heq ▸ hs : Sound (.call p inputs))
  | invoke p inputs => exact h.invoke hframes hhosts he hs

/-- A property that entering and leaving a procedure respects. -/
def RespectsCalls (R : (α : Type) → (ι → Run α) → Prop) : Prop :=
  ∀ (name : String) {m : ι → Run (Option Atom)}, R _ m →
    R _ fun i => enter name >>= fun _ => leaving (m i)

/-- A property that says the same thing of a run at any depth and of any fuel. -/
structure Uniform (least : ι) (Sound : Expr → Prop) (R : (α : Type) → (ι → Run α) → Prop) :
    Prop where
  cutsOff : CutsOff least R
  frames : RespectsFrames R
  hosts : RespectsHosts Sound R
  calls : RespectsCalls R

theorem engines (h : Compatible least Sound R) (hcalls : RespectsCalls R)
    (hrun : ∀ {job : Job}, job.Sound Sound → R _ fun i => (eng i).run job)
    (hread : ∀ i, (eng i).read = Engine.parse)
    (hrounds : ∀ i, (eng least).rounds ≤ (eng i).rounds) : Engines least Sound R eng where
  read atoms _ hk := by
    simp only [hread]
    exact h.parse atoms hk
  execute code keep := hrun (show (Job.execute code keep).Sound Sound from trivial)
  force {e} hs := hrun (show (Job.force e).Sound Sound from hs)
  call {p inputs} hs := hcalls p.name (hrun (show (Job.invoke p inputs).Sound Sound from hs))
  rounds := hrounds

/-- Whatever the amounts of fuel, as long as none is less than the least, a sound job runs as the
property has it. -/
theorem interpret (h : Compatible least Sound R) (hu : Uniform least Sound R) (n : Nat) :
    ∀ fuel : ι → Nat, fuel least = n → (∀ i, n ≤ fuel i) → ∀ {job : Job}, job.Sound Sound →
      R _ fun i => TurtleLogo.interpret (fuel i) job := by
  induction n with
  | zero =>
    intro fuel hleast _ job _
    exact hu.cutsOff fun w => by rw [hleast]; rfl
  | succ n ih =>
    intro fuel hleast hle job hs
    obtain ⟨fuel, rfl, hle'⟩ := exists_succ hle
    have hleast' : fuel least = n := Nat.succ.inj hleast
    have hengines : Engines least Sound R fun i => engineOn (fuel i) :=
      h.engines hu.calls (fun hs => ih fuel hleast' hle' hs) (fun _ => rfl)
        fun i => hleast' ▸ hle' i
    simp only [interpret_eq_step]
    exact h.step hu.frames hu.hosts hengines hs

/-- The engine of one amount of fuel, as often as need be. -/
theorem engineOn (h : Compatible least Sound R) (hu : Uniform least Sound R) (fuel : Nat) :
    Engines least Sound R fun _ => TurtleLogo.engineOn fuel :=
  have hle : ∀ _ : ι, fuel ≤ fuel := fun _ => Nat.le_refl fuel
  h.engines hu.calls (fun hs => h.interpret hu fuel (fun _ => fuel) rfl hle hs) (fun _ => rfl) hle

end Compatible

end Run

end TurtleLogo
