import TurtleLogo.Proofs.Run.Interpret

set_option autoImplicit false

/-! # Congruences

A relation between runs that everything a program is made of respects, whatever expressions are in
it. Most facts about runs are of this kind: `Congruence R` lists what has to be shown of the few
operations that touch the state, and `Congruence.interpret` concludes `R` for every job. -/

namespace TurtleLogo

theorem Job.sound_true (job : Job) : job.Sound fun _ => True := by
  cases job with
  | execute code keep => trivial
  | force e => trivial
  | invoke p inputs => trivial

namespace Run

/-- A relation between runs that everything a program is made of respects. -/
structure Congruence (R : (α : Type) → Run α → Run α → Prop) : Prop where
  done {α : Type} (a : α) : R α (Pure.pure a) (Pure.pure a)
  bind {α β : Type} {m m' : Run α} {f f' : α → Run β} :
    R α m m' → (∀ a, R β (f a) (f' a)) → R β (m >>= f) (m' >>= f')
  exit {α : Type} (e : Exit) : R α (Run.exit e) (Run.exit e)
  attempt {α β : Type} {m m' : Run α} {f f' : Except Exit α → Run β} :
    R α m m' → (∀ x, R β (f x) (f' x)) → R β (Run.attempt m f) (Run.attempt m' f')
  /-- A run that is cut off says nothing about one with more fuel. -/
  exhausted {α : Type} (m : Run α) : R α (fun _ => .exhausted) m
  heedAbort : R Unit Run.heedAbort Run.heedAbort
  look {α β : Type} (view : World → β) (hview : World.Visible view) {k k' : β → Run α} :
    (∀ b, R α (k b) (k' b)) → R α (fun w => k (view w) w) (fun w => k' (view w) w)
  onTurtle (f : Turtle → Turtle) : R Unit (Run.onTurtle f) (Run.onTurtle f)
  assign (name : String) (a : Atom) :
    R Unit (Run.modify (·.assign name a)) (Run.modify (·.assign name a))
  bindLocal (name : String) (a : Atom) :
    R Unit (Run.onFrames (·.bindLocal name a)) (Run.onFrames (·.bindLocal name a))
  declareLocal (name : String) :
    R Unit (Run.onFrames (·.declareLocal name)) (Run.onFrames (·.declareLocal name))
  setTest (flag : Option Bool) :
    R Unit (Run.onFrames (·.setTest flag)) (Run.onFrames (·.setTest flag))
  write (line : String) :
    R Unit (Run.modify fun w => { w with lines := w.lines.push line })
      (Run.modify fun w => { w with lines := w.lines.push line })
  setAborted (flag : Bool) :
    R Unit (Run.modify fun w => { w with aborted := flag })
      (Run.modify fun w => { w with aborted := flag })
  parse (atoms : List Atom) : R _ (Engine.parse atoms) (Engine.parse atoms)
  counted (i : Nat) {m m' : Run Unit} : R Unit m m' → R Unit (Act.counted i m) (Act.counted i m')
  called (name : String) {m m' : Run (Option Atom)} : R _ m m' →
    R _ (enter name >>= fun _ => leaving m) (enter name >>= fun _ => leaving m')
  framed {m m' : Run Unit} : R Unit m m' →
    R _ (TurtleLogo.framed m) (TurtleLogo.framed m')

/-- Engines that run the same jobs in a related way; the second may go on for more rounds. -/
structure Related (R : (α : Type) → Run α → Run α → Prop) (eng eng' : Engine) : Prop where
  run (job : Job) : R _ (eng.run job) (eng'.run job)
  read (atoms : List Atom) : R _ (eng.read atoms) (eng'.read atoms)
  rounds : eng.rounds ≤ eng'.rounds

variable {R : (α : Type) → Run α → Run α → Prop} {eng eng' : Engine}

/-- The first of two, and the second. -/
def pair {α : Type} (a b : α) : Bool → α
  | false => a
  | true => b

theorem Congruence.cutsOff (h : Congruence R) :
    CutsOff false fun α m => R α (m false) (m true) := by
  intro α m hleast
  rw [show m false = fun _ => .exhausted from funext hleast]
  exact h.exhausted (m true)

/-- A congruence is a property of families of two that all expressions are sound for. -/
theorem Congruence.compatible (h : Congruence R) :
    Compatible false (fun _ => True) fun α m => R α (m false) (m true) where
  done := h.done
  bind hm hf := h.bind hm hf
  fail cause _ := h.exit (.fault { cause })
  stop := h.exit .stop
  output a := h.exit (.output a)
  heedAbort := h.heedAbort
  look view hview _ hk := h.look view hview hk
  onTurtle := h.onTurtle
  assign := h.assign
  bindLocal := h.bindLocal
  declareLocal := h.declareLocal
  setTest := h.setTest
  write := h.write
  setAborted := h.setAborted
  counted n _ hm := h.counted n hm
  parse atoms _ hk := h.bind (h.parse atoms) fun x => hk x.1 x.2 trivial
  negate _ := trivial
  binary _ := ⟨trivial, trivial⟩
  inputs _ _ _ := trivial
  supplied _ := .inr fun _ me => h.exit (.fault { cause := .inputMissing me })
  loops _ _ := h.cutsOff

theorem Congruence.attempts (h : Congruence R) :
    Compatible.Attempts (fun _ => True) fun α (m : Bool → Run α) => R α (m false) (m true) where
  made _ _ _ := trivial
  exit {_ e} _ := h.exit e
  attempt hm hok herror := h.attempt hm fun
    | .ok a => hok a
    | .error e => herror e trivial

theorem Congruence.uniform (h : Congruence R) :
    Compatible.Uniform false (fun _ => True) fun α m => R α (m false) (m true) where
  cutsOff := h.cutsOff
  frames hm := h.framed hm
  hosts := h.compatible.respectsHosts h.attempts
  calls name _ hm := h.called name hm

theorem Related.engines (h : Congruence R) (he : Related R eng eng') :
    Engines false (fun _ => True) (fun α m => R α (m false) (m true)) (pair eng eng') where
  read atoms _ hk := h.bind (he.read atoms) fun x => hk x.1 x.2 trivial
  force {e} _ := he.run (.force e)
  execute code keep := he.run (.execute code keep)
  call {p inputs} _ := h.called p.name (he.run (.invoke p inputs))
  rounds
    | false => Nat.le_refl _
    | true => he.rounds

namespace Congruence

theorem perform (h : Congruence R) (he : Related R eng eng') (code : List Atom) :
    R _ (eng.perform code) (eng'.perform code) :=
  h.compatible.perform (he.engines h) code

theorem demand (h : Congruence R) (he : Related R eng eng') (e : Expr) (consumer : String) :
    R _ (eng.demand e consumer) (eng'.demand e consumer) :=
  h.compatible.demand (he.engines h) trivial consumer

theorem condition (h : Congruence R) (he : Related R eng eng') (e : Expr) (consumer : String) :
    R _ (eng.condition e consumer) (eng'.condition e consumer) :=
  h.compatible.condition (he.engines h) trivial consumer

theorem evaluate (h : Congruence R) (he : Related R eng eng') (atoms : List Atom) :
    R _ (eng.evaluate atoms) (eng'.evaluate atoms) :=
  h.compatible.evaluate (he.engines h) atoms

theorem bindAll (h : Congruence R) (he : Related R eng eng') (d : Definition) (args : List Atom) :
    R _ (TurtleLogo.bindAll eng d args) (TurtleLogo.bindAll eng' d args) :=
  h.compatible.bindAll (he.engines h) d args

theorem interpret (h : Congruence R) (fuel fuel' : Nat) (hle : fuel ≤ fuel') (job : Job) :
    R _ (TurtleLogo.interpret fuel job) (TurtleLogo.interpret fuel' job) :=
  h.compatible.interpret h.uniform fuel (pair fuel fuel') rfl
    (fun
    | false => Nat.le_refl _
    | true => hle)
    job.sound_true

/-- The engines of two amounts of fuel run all jobs in a related way. -/
theorem engines (h : Congruence R) {fuel fuel' : Nat} (hle : fuel ≤ fuel') :
    Related R (engineOn fuel) (engineOn fuel') :=
  ⟨h.interpret fuel fuel' hle, h.parse, hle⟩

end Congruence

end Run

end TurtleLogo
