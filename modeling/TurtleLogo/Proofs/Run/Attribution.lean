import TurtleLogo.Proofs.Run.Balance
import TurtleLogo.Proofs.Run.Hosts

set_option autoImplicit false

/-! # Where a fault was raised

The procedures that were running are recorded in a fault by whoever leaves a procedure first. That
names the right ones: the procedures that were running where the fault was raised, and nobody
changes them later, as long as hosts record none in the faults that they make up.

To say where a fault was raised, a run is repeated with one of the jobs cut off that it may ask for
(`Engine.without`). Nobody goes on after a job that is cut off, not even a host, so the run is cut
off, too, exactly if it asks for that job (`Asks`). A run that fails raised the fault itself, or the
fault is that of a job it asked for (`Traced`). Following the jobs inwards leads to the place where
the fault was raised (`RaisedUnder`). -/

namespace TurtleLogo

/-! ## Faults of reading -/

namespace Parse

/-- A fault of reading has no procedures recorded and is not one of those that are reserved, or it
is the fault of a definition. -/
def Blames (α : Type) (m _m' : Parse α) : Prop :=
  ∀ ctx s f s', m ctx s = .fail f s' →
    (f.stack = [] ∧ f.cause.isReserved = false) ∨
      ∃ definer s₁ s₂, define definer ctx s₁ = .fail f s₂

theorem Blames.bind {α β : Type} {m m' : Parse α} {f f' : α → Parse β} (hm : Blames α m m')
    (hf : ∀ a, Blames β (f a) (f' a)) : Blames β (m >>= f) (m' >>= f') := by
  intro ctx s e s' hfail
  cases hr : m ctx s with
  | ok a s₁ =>
    rw [bind_ok hr] at hfail
    exact hf a ctx s₁ e s' hfail
  | fail e₁ s₁ =>
    rw [bind_fail hr] at hfail
    obtain ⟨rfl, rfl⟩ := Result.fail.inj hfail
    exact hm ctx s e₁ s₁ hr

theorem Blames.callOf (name : String) {inputs inputs' : Procedure → Parse Expr}
    (h : ∀ p, Blames Expr (inputs p) (inputs' p)) :
    Blames Expr (Parse.callOf name inputs) (Parse.callOf name inputs') := by
  intro ctx s f s' hfail
  cases hget : s.registry.get? name with
  | none =>
    rw [callOf_none hget] at hfail
    obtain ⟨rfl, -⟩ := Result.fail.inj hfail
    exact Or.inl ⟨rfl, rfl⟩
  | some p =>
    by_cases hbody : p.body = .definer
    · rw [callOf_definer hget hbody] at hfail
      exact Or.inr ⟨p, s, s', hfail⟩
    · rw [callOf_inputs hget hbody] at hfail
      exact h p ctx s f s' hfail

theorem Blames.takeOperator (level : Level) :
    Blames _ (Parse.takeOperator level) (Parse.takeOperator level) := by
  intro ctx s f s' hfail
  rcases takeOperator_cases level ctx s with ⟨_, _, _, -, -, -, htake⟩ | ⟨-, htake⟩
  · rw [htake] at hfail
    cases hfail
  · rw [htake] at hfail
    cases hfail

theorem Blames.congruence : Congruence Blames fun _ => Blames Expr where
  ok _ _ _ _ _ hfail := by cases hfail
  fail _ hcause _ _ _ _ hfail := by
    obtain ⟨rfl, -⟩ := Result.fail.inj hfail
    exact Or.inl ⟨rfl, hcause⟩
  bind := Blames.bind
  peek _ _ _ _ hfail := by cases hfail
  skip _ _ _ _ hfail := by cases hfail
  nextIs _ _ _ _ _ hfail := by cases hfail
  takeOperator := Blames.takeOperator
  next hk := Blames.bind (fun _ _ _ _ hfail => by cases hfail) hk
  later hm := hm
  call name _ _ hinputs := Blames.callOf name hinputs
  calledOr hcall hother ctx s f s' hfail := by
    unfold Parse.calledOr at hfail
    split at hfail
    · exact hcall _ _ _ _ _ hfail
    · exact hother _ _ _ _ hfail

end Parse

/-- The procedures that a failing definition records: none if the program is to stop, the running
ones if there are too many, and otherwise those and the definition itself. -/
theorem Parse.stack_of_define {definer : Procedure} {ctx : Parse.Context} {s s' : Parse.State}
    {f : Fault} (h : Parse.define definer ctx s = .fail f s') :
    (ctx.aborted = true → f.stack = []) ∧
    (ctx.aborted = false → ctx.limit ≤ ctx.calls.size → f.stack = ctx.calls.toList) ∧
    (ctx.aborted = false → ctx.calls.size < ctx.limit →
      f.stack = ctx.calls.toList ++ [definer.name]) := by
  rcases define_fail_inv h with
    ⟨habort, rfl, -⟩ | ⟨habort, hdeep, rfl, -⟩ | ⟨habort, hdepth, cause, rest, rfl, -, -⟩
  · simp [habort]
  · simp [habort, Nat.not_lt.mpr hdeep]
  · simp [habort, Nat.not_le.mpr hdepth]

/-! ## Engines with a job cut off -/

variable {eng : Engine}

open Classical in
/-- The engine with one job cut off, if one is given with the state it starts from. -/
noncomputable def Engine.without (eng : Engine) : Option (Job × World) → Engine
  | none => eng
  | some cut =>
    { eng with run := fun job w => if (job, w) = cut then .exhausted else eng.run job w }

theorem Engine.without_hit (job : Job) (w : World) :
    (eng.without (some (job, w))).run job w = .exhausted :=
  if_pos rfl

theorem Engine.without_miss {cut : Option (Job × World)} {job : Job} {w : World}
    (h : cut ≠ some (job, w)) : (eng.without cut).run job w = eng.run job w := by
  cases cut with
  | none => rfl
  | some cut => exact if_neg fun heq => h (congrArg some heq.symm)

theorem Engine.without_read (cut : Option (Job × World)) : (eng.without cut).read = eng.read := by
  cases cut with
  | none => rfl
  | some cut => rfl

theorem Engine.without_rounds (cut : Option (Job × World)) :
    (eng.without cut).rounds = eng.rounds := by
  cases cut with
  | none => rfl
  | some cut => rfl

/-! ## One step -/

/-- The faults that a host makes up have no procedures recorded. -/
def HostAction.Unrecorded : {handed : List Exit} → HostAction handed → Prop
  | _, finish _ => True
  | _, fail _ _ stack => stack = []
  | _, stop => True
  | _, output _ => True
  | _, passOn _ _ => True
  | _, abort next => next.Unrecorded
  | _, resume next => next.Unrecorded
  | _, assign _ _ next => next.Unrecorded
  | _, observe next => ∀ glimpse, (next glimpse).Unrecorded
  | _, attempt _ _ next => ∀ result, (next result).Unrecorded

/-- The state of a program while `calls` are running, all of whose hosts leave recording to the
interpreter. -/
structure World.Traceable (calls : Array String) (w : World) : Prop where
  calls : w.calls = calls
  hosts : w.procedures.Hosts HostAction.Unrecorded

/-- The fault is that of a definition that was entered while `calls` were running. -/
def Fault.OfDefinition (definer : Procedure) (calls : Array String) (f : Fault) : Prop :=
  ∃ ctx s s', ctx.calls = calls ∧ ctx.aborted = false ∧ ctx.calls.size < ctx.limit ∧
    Parse.define definer ctx s = .fail f s'

/-- A fault that was raised while just `calls` were running, and by no call: its procedures are not
recorded yet, or they are these, or it is the fault of a definition that was read then. -/
inductive Fault.Own (calls : Array String) (f : Fault) : Prop where
  | unrecorded : f.stack = [] → Own calls f
  | refused : f.stack = calls.toList → Own calls f
  | definition (definer : Procedure) : f.OfDefinition definer calls → Own calls f

theorem Fault.Own.of_define {definer : Procedure} {ctx : Parse.Context} {s s' : Parse.State}
    {f : Fault} {calls : Array String} (h : Parse.define definer ctx s = .fail f s')
    (hcalls : ctx.calls = calls) : f.Own calls := by
  obtain ⟨hstop, hrefused, -⟩ := Parse.stack_of_define h
  cases habort : ctx.aborted with
  | true => exact .unrecorded (hstop habort)
  | false =>
    rcases Nat.lt_or_ge ctx.calls.size ctx.limit with hdepth | hdeep
    · exact .definition definer ⟨ctx, s, s', hcalls, habort, hdepth, h⟩
    · exact .refused (hcalls ▸ hrefused habort hdeep)

/-- The last fault is the one of a job, or of a job that runs the procedure of a call, with the
running procedures recorded when it is left. -/
inductive Fault.From (eng : Engine) (calls : Array String) :
    Job → World → Fault → Fault → Prop where
  | asked {job : Job} {v v' : World} {f : Fault} : v.calls = calls →
    eng.run job v = .exit (.fault f) v' → From eng calls job v f f
  | called {p : Procedure} {inputs : List Expr} {v v' : World} {f : Fault} :
    v.calls = calls.push p.name → eng.run (.invoke p inputs) v = .exit (.fault f) v' →
      From eng calls (.invoke p inputs) v f (f.record (calls.push p.name))

/-- Where the fault of a run comes from: it is raised by the run itself, it is that of a job that
was asked for, or it was known before. -/
inductive Fault.Origin (eng : Engine) (calls : Array String) (Known : Fault → Prop)
    (Asked : Job → World → Prop) (f : Fault) : Prop where
  | own : f.Own calls → Origin eng calls Known Asked f
  | asked {job : Job} {v : World} {g : Fault} : Asked job v → From eng calls job v g f →
    Origin eng calls Known Asked f
  | known : Known f → Origin eng calls Known Asked f

variable {α β : Type}

/-- How the outcomes of a run depend on the job that is cut off. Either the run itself is cut off
with all jobs in place; or it is cut off where a job is that it asks for, and ends as it does for
any other. A fault with which it ends has an origin. -/
inductive Traced (eng : Engine) (calls : Array String) (Known : Fault → Prop)
    (o : Option (Job × World) → Outcome α) : Prop where
  | exhausted : o none = .exhausted → Traced eng calls Known o
  | ended : (∀ cut, o cut = .exhausted ∨ o cut = o none) →
    (∀ job v, o (some (job, v)) = .exhausted →
      job.Sound (Expr.Hosts HostAction.Unrecorded) ∧ v.procedures.Hosts HostAction.Unrecorded) →
    (o none).Ends (World.Traceable calls) →
    (∀ f w, o none = .exit (.fault f) w →
      f.Origin eng calls Known fun job v => o (some (job, v)) = .exhausted) →
    Traced eng calls Known o

/-- Goes on after a run that has ended, in one way if it is done and in another if it exits. -/
def Outcome.andThen (f : α → Run β) (g : Exit → Run β) : Outcome α → Outcome β
  | .done a w => f a w
  | .exit e w => g e w
  | .exhausted => .exhausted

namespace Traced

variable {calls : Array String} {Known Known' : Fault → Prop}

theorem mono {o : Option (Job × World) → Outcome α} (h : Traced eng calls Known o)
    (hKnown : ∀ f, Known f → Known' f) : Traced eng calls Known' o := by
  cases h with
  | exhausted hcut => exact .exhausted hcut
  | ended hcut hasked hends horigin =>
    refine .ended hcut hasked hends fun f w hexit => ?_
    cases horigin f w hexit with
    | own hown => exact .own hown
    | asked hask hfrom => exact .asked hask hfrom
    | known hknown => exact .known (hKnown f hknown)

theorem ends {o : Option (Job × World) → Outcome α} (h : Traced eng calls Known o) :
    (o none).Ends (World.Traceable calls) := by
  cases h with
  | exhausted hcut => rw [hcut]; exact trivial
  | ended _ _ hends _ => exact hends

theorem done (a : α) {w : World} (h : w.Traceable calls) :
    Traced eng calls Known fun _ => Outcome.done a w :=
  .ended (fun _ => Or.inr rfl) (by simp) h (by simp)

theorem exit {e : Exit} {w : World} (h : w.Traceable calls)
    (he : ∀ f, e = .fault f → f.Own calls ∨ Known f) :
    Traced eng calls Known fun _ => (Outcome.exit e w : Outcome α) := by
  refine .ended (fun _ => Or.inr rfl) (by simp) h fun f w' hexit => ?_
  rcases he f (Outcome.exit.inj hexit).1 with hown | hknown
  · exact .own hown
  · exact .known hknown

theorem fault {f : Fault} {w : World} (h : w.Traceable calls) (hf : f.Own calls) :
    Traced eng calls Known fun _ => (Outcome.exit (.fault f) w : Outcome α) :=
  exit h fun _ he => Or.inl (Exit.fault.inj he ▸ hf)

/-- A run `m` with something after it: as long as `m` is not cut off, `o` ends as `n` does, to which
the fault of `m` is known. -/
theorem after {m : Option (Job × World) → Outcome α} {n o : Option (Job × World) → Outcome β}
    (hm : Traced eng calls (fun _ => False) m) (hne : m none ≠ .exhausted)
    (hexhausted : ∀ cut, m cut = .exhausted → o cut = .exhausted)
    (hsame : ∀ cut, m cut = m none → o cut = n cut)
    (hn : Traced eng calls (fun f => (∃ w, m none = .exit (.fault f) w) ∨ Known f) n) :
    Traced eng calls Known o := by
  have hnone : o none = n none := hsame none rfl
  cases hm with
  | exhausted hcut => exact absurd hcut hne
  | ended hcut hasked _ horigin =>
    cases hn with
    | exhausted hcut' => exact .exhausted (hnone.trans hcut')
    | ended hcut' hasked' hends' horigin' =>
      have hright : ∀ cut, n cut = .exhausted → o cut = .exhausted := by
        intro cut h
        rcases hcut cut with hm | hm
        · exact hexhausted cut hm
        · rw [hsame cut hm, h]
      refine .ended (fun cut => ?_) (fun job v ho => ?_) (hnone ▸ hends') fun f w hexit => ?_
      · rcases hcut cut with hm | hm
        · exact Or.inl (hexhausted cut hm)
        · rw [hsame cut hm, hnone]
          exact hcut' cut
      · rcases hcut (some (job, v)) with hm | hm
        · exact hasked job v hm
        · exact hasked' job v (hsame _ hm ▸ ho)
      · rw [hnone] at hexit
        cases horigin' f w hexit with
        | own hown => exact .own hown
        | asked hask hfrom => exact .asked (hright _ hask) hfrom
        | known hknown =>
          rcases hknown with ⟨w₁, hw₁⟩ | hknown
          · cases horigin f w₁ hw₁ with
            | own hown => exact .own hown
            | asked hask hfrom => exact .asked (hexhausted _ hask) hfrom
            | known hknown => exact hknown.elim
          · exact .known hknown

theorem andThen {m : Option (Job × World) → Outcome α} {f : Option (Job × World) → α → Run β}
    {g : Option (Job × World) → Exit → Run β} (hm : Traced eng calls (fun _ => False) m)
    (hf : ∀ a w, w.Traceable calls → Traced eng calls Known fun cut => f cut a w)
    (hg : ∀ e w, w.Traceable calls →
      Traced eng calls (fun f => e = .fault f ∨ Known f) fun cut => g cut e w) :
    Traced eng calls Known fun cut => (m cut).andThen (f cut) (g cut) := by
  have hends := hm.ends
  have hexhausted : ∀ cut, m cut = .exhausted → (m cut).andThen (f cut) (g cut) = .exhausted :=
    fun cut h => by rw [h]; rfl
  cases hr : m none with
  | exhausted => exact .exhausted (hexhausted none hr)
  | done a w =>
    rw [hr] at hends
    refine hm.after (by simp [hr]) hexhausted (fun cut h => ?_) ((hf a w hends).mono fun _ => .inr)
    rw [h, hr]
    rfl
  | exit e w =>
    rw [hr] at hends
    refine hm.after (by simp [hr]) hexhausted (fun cut h => ?_) ((hg e w hends).mono fun f hknown =>
      hknown.imp_left fun he => ⟨w, by rw [hr, he]⟩)
    rw [h, hr]
    rfl

/-- An exit that is passed on unchanged. -/
theorem passedOn (e : Exit) {w : World} (h : w.Traceable calls) :
    Traced eng calls (fun f => e = .fault f ∨ Known f) fun _ =>
      (Outcome.exit e w : Outcome α) :=
  exit h fun _ he => Or.inr (Or.inl he)

end Traced

/-! ### What programs are made of -/

namespace Run

/-- The run is traced, wherever it starts. -/
def Traced (eng : Engine) (α : Type) (m : Option (Job × World) → Run α) : Prop :=
  ∀ w, w.procedures.Hosts HostAction.Unrecorded →
    TurtleLogo.Traced eng w.calls (fun _ => False) fun cut => m cut w

namespace Traced

theorem done {m : Run α} {a : α} {change : World → World} (hm : ∀ w, m w = .done a (change w))
    (hcalls : ∀ w, (change w).calls = w.calls)
    (hprocedures : ∀ w, (change w).procedures = w.procedures) : Traced eng α fun _ => m := by
  intro w hw
  simp only [hm]
  exact .done a ⟨hcalls w, hprocedures w ▸ hw⟩

theorem exit {e : Exit} (he : ∀ f, e = .fault f → f.stack = []) :
    Traced eng α fun _ => Run.exit e :=
  fun _ hw => .exit ⟨rfl, hw⟩ fun f hf => Or.inl (.unrecorded (he f hf))

theorem fail (cause : Cause) : Traced eng α fun _ => Run.fail cause :=
  exit fun _ hf => Exit.fault.inj hf ▸ rfl

theorem bind {m : Option (Job × World) → Run α} {f : Option (Job × World) → α → Run β}
    (hm : Traced eng α m) (hf : ∀ a, Traced eng β fun cut => f cut a) :
    Traced eng β fun cut => m cut >>= f cut := by
  intro w hw
  refine (hm w hw).andThen (fun a w₁ h => ?_) fun e w₁ h => .passedOn e h
  exact h.calls ▸ hf a w₁ h.hosts

theorem heedAbort : Traced eng Unit fun _ => Run.heedAbort := by
  intro w hw
  cases habort : w.aborted with
  | true =>
    simp only [heedAbort_stop habort]
    exact .fault ⟨rfl, hw⟩ (.unrecorded rfl)
  | false =>
    simp only [heedAbort_go habort]
    exact .done () ⟨rfl, hw⟩

theorem parse (atoms : List Atom) {k : Option (Job × World) → Expr × List Atom → Run α}
    (hk : ∀ e rest, e.Hosts HostAction.Unrecorded → Traced eng α fun cut => k cut (e, rest)) :
    Traced eng α fun cut => Engine.parse atoms >>= k cut := by
  intro w hw
  rcases Engine.parse_cases atoms w with ⟨e, s, hread, hparse⟩ | ⟨f, s, hread, hparse⟩
  · obtain ⟨hregistry, he⟩ := Registry.Hosts.supports.parseExpr_ok hw hread
    simp only [bind_done hparse]
    exact hk e s.atoms he { w with procedures := s.registry } hregistry
  · obtain ⟨hregistry, -⟩ := Registry.Hosts.supports.parseExpr_fail hw hread
    simp only [bind_exit hparse]
    refine .fault ⟨rfl, hregistry⟩ ?_
    rcases Parse.Blames.congruence.expression atoms.length w.parseContext _ f s hread with
      ⟨hstack, -⟩ | ⟨definer, s₁, s₂, hdefine⟩
    · exact .unrecorded hstack
    · exact Fault.Own.of_define hdefine rfl

theorem counted (i : Nat) {m : Option (Job × World) → Run Unit} (hm : Traced eng Unit m) :
    Traced eng Unit fun cut => Act.counted i (m cut) := by
  intro w hw
  have hrestore : (fun cut => Act.counted i (m cut) w)
      = fun cut => (m cut (Act.withRepcount i w)).andThen
          (fun _ w₁ => .done () (Act.withRepcount w.repcount w₁))
          fun e w₁ => .exit e (Act.withRepcount w.repcount w₁) := by
    funext cut
    rw [Act.counted_apply]
    cases m cut (Act.withRepcount i w) <;> rfl
  rw [hrestore]
  refine (hm (Act.withRepcount i w) hw).andThen (fun _ w₁ h => ?_) fun e w₁ h => ?_
  · exact .done () ⟨h.calls, h.hosts⟩
  · exact .passedOn e ⟨h.calls, h.hosts⟩

theorem framed {m : Option (Job × World) → Run Unit} (hm : Traced eng Unit m) :
    Traced eng _ fun cut => framed (m cut) := by
  intro w hw
  have hclose : (fun cut => TurtleLogo.framed (m cut) w)
      = fun cut => (m cut { w with frames := w.frames.push }).andThen
          (fun a w₁ => (Outcome.done a w₁).closeFrame)
          fun e w₁ => (Outcome.exit e w₁).closeFrame := by
    funext cut
    rw [framed_apply]
    cases m cut { w with frames := w.frames.push } <;> rfl
  rw [hclose]
  refine (hm { w with frames := w.frames.push } hw).andThen (fun _ w₁ h => ?_) fun e w₁ h => ?_
  · exact .done none ⟨h.calls, h.hosts⟩
  · cases e with
    | stop => exact .done none ⟨h.calls, h.hosts⟩
    | output a => exact .done (some a) ⟨h.calls, h.hosts⟩
    | fault f => exact .passedOn (.fault f) ⟨h.calls, h.hosts⟩

theorem compatible (eng : Engine) :
    Compatible none (Expr.Hosts HostAction.Unrecorded) (Traced eng) where
  done _ := done (fun _ => rfl) (fun _ => rfl) fun _ => rfl
  bind := bind
  fail cause _ := fail cause
  stop := exit nofun
  output _ := exit nofun
  heedAbort := heedAbort
  look _ _ _ hk w hw := hk _ w hw
  onTurtle _ := done (fun _ => rfl) (fun _ => rfl) fun _ => rfl
  assign _ _ := done (fun _ => rfl) (fun _ => rfl) fun _ => rfl
  bindLocal _ _ := done (fun _ => rfl) (fun _ => rfl) fun _ => rfl
  declareLocal _ := done (fun _ => rfl) (fun _ => rfl) fun _ => rfl
  setTest _ := done (fun _ => rfl) (fun _ => rfl) fun _ => rfl
  write _ := done (fun _ => rfl) (fun _ => rfl) fun _ => rfl
  setAborted _ := done (fun _ => rfl) (fun _ => rfl) fun _ => rfl
  counted i _ hm := counted i hm
  parse atoms _ hk := parse atoms hk
  negate | .negate h => h
  binary | .binary _ hleft hright => ⟨hleft, hright⟩
  inputs | .call _ hinputs => hinputs
  supplied _ := Or.inr fun _ me => fail (.inputMissing me)
  loops _ _ _ _ hleast w _ := .exhausted (hleast w)

/-- A host ends with a fault that it makes up, or that it has been handed. -/
theorem hostAction {engs : Option (Job × World) → Engine}
    (hexecute : ∀ code keep, Traced eng _ fun cut => (engs cut).execute code keep)
    {handed : List Exit} (act : HostAction handed) (hact : act.Unrecorded) :
    ∀ w, w.procedures.Hosts HostAction.Unrecorded →
      TurtleLogo.Traced eng w.calls (fun f => .fault f ∈ handed) fun cut =>
        act.perform (engs cut) w := by
  induction act with
  | finish v => exact fun w hw => .done v ⟨rfl, hw⟩
  | fail kind message stack => exact fun w hw => .fault ⟨rfl, hw⟩ (.unrecorded hact)
  | stop => exact fun w hw => .exit ⟨rfl, hw⟩ nofun
  | output a => exact fun w hw => .exit ⟨rfl, hw⟩ nofun
  | passOn e hmem => exact fun w hw => .exit ⟨rfl, hw⟩ fun f hf => Or.inr (hf ▸ hmem)
  | abort next ih => exact fun w hw => ih hact { w with aborted := true } hw
  | resume next ih => exact fun w hw => ih hact { w with aborted := false } hw
  | assign name a next ih => exact fun w hw => ih hact (w.assign name a) hw
  | observe next ih => exact fun w hw => ih w.glimpse (hact w.glimpse) w hw
  | attempt code keep next ih =>
    intro w hw
    refine (hexecute code keep w hw).andThen (fun v w₁ h => ?_) fun e w₁ h => ?_
    · exact h.calls ▸ ih (.ok v) (hact (.ok v)) w₁ h.hosts
    · refine h.calls ▸ (ih (.error e) (hact (.error e)) w₁ h.hosts).mono fun f hmem => ?_
      exact (List.mem_cons.mp hmem).imp_left Eq.symm

theorem respectsHosts (eng : Engine) :
    Compatible.RespectsHosts (Expr.Hosts HostAction.Unrecorded) (Traced eng)
  | _, _, act, _, .call hp _, hbody, hexecute, args => fun w hw =>
    (hostAction hexecute (act args) (hp act hbody args) w hw).mono fun f hmem => by simp at hmem

end Traced

end Run

/-! ### Jobs -/

theorem leaving_fault {m : Run α} {f : Fault} {w w' : World} (h : m w = .exit (.fault f) w') :
    leaving m w = .exit (.fault (f.record w'.calls)) w'.dropCall := by
  unfold leaving
  rw [h]

theorem exists_fault_of_leaving {m : Run α} {f : Fault} {w w' : World}
    (h : leaving m w = .exit (.fault f) w') : ∃ g w₁, m w = .exit (.fault g) w₁ := by
  obtain ⟨g, w₁, hm, -⟩ := Outcome.exists_of_closeCall h
  exact ⟨g, w₁, hm⟩

/-- A job is asked for by what becomes of its outcome, which is given by `close`. -/
theorem Traced.of_job {calls : Array String} (job : Job) (v : World)
    (hjob : job.Sound (Expr.Hosts HostAction.Unrecorded))
    (hv : v.procedures.Hosts HostAction.Unrecorded) (close : Outcome (Option Atom) → Outcome α)
    (hexhausted : close .exhausted = .exhausted)
    (hends : (close (eng.run job v)).Ends (World.Traceable calls))
    (hfrom : ∀ f w, close (eng.run job v) = .exit (.fault f) w →
      ∃ g, Fault.From eng calls job v g f) :
    Traced eng calls (fun _ => False) fun cut => close ((eng.without cut).run job v) := by
  by_cases hcut : close (eng.run job v) = .exhausted
  · exact .exhausted hcut
  have hhit : close ((eng.without (some (job, v))).run job v) = .exhausted := by
    rw [Engine.without_hit, hexhausted]
  have hmiss : ∀ cut, cut ≠ some (job, v) →
      close ((eng.without cut).run job v) = close (eng.run job v) :=
    fun cut h => by rw [Engine.without_miss h]
  refine .ended (fun cut => ?_) (fun job' v' ho => ?_) hends fun f w hexit => ?_
  · by_cases h : cut = some (job, v)
    · exact Or.inl (h ▸ hhit)
    · exact Or.inr (hmiss cut h)
  · by_cases h : some (job', v') = some (job, v)
    · obtain ⟨rfl, rfl⟩ := Prod.mk.inj (Option.some.inj h)
      exact ⟨hjob, hv⟩
    · exact absurd ((hmiss _ h).symm.trans ho) hcut
  · obtain ⟨g, hg⟩ := hfrom f w hexit
    exact .asked hhit hg

namespace Run.Traced

variable (hends : ∀ job w, w.procedures.Hosts HostAction.Unrecorded →
  (eng.run job w).Ends (World.Traceable w.calls))

include hends

theorem run (job : Job) (hjob : job.Sound (Expr.Hosts HostAction.Unrecorded)) :
    Traced eng _ fun cut => (eng.without cut).run job := by
  intro w hw
  exact .of_job job w hjob hw id rfl (hends job w hw) fun f w' hrun => ⟨f, .asked rfl hrun⟩

/-- The job that runs the procedure of a call is closed by leaving the procedure, and a call that is
refused raises the fault itself. -/
theorem call {p : Procedure} {inputs : List Expr}
    (hcall : (Expr.call p inputs).Hosts HostAction.Unrecorded) :
    Traced eng _ fun cut => TurtleLogo.call (eng.without cut) p inputs := by
  intro w hw
  unfold TurtleLogo.call
  cases habort : w.aborted with
  | true =>
    simp only [bind_exit (enter_aborted habort)]
    exact .fault ⟨rfl, hw⟩ (.unrecorded rfl)
  | false =>
    rcases Nat.lt_or_ge w.calls.size w.limit with hdepth | hdeep
    · simp only [bind_done (enter_done habort hdepth), leaving_apply]
      have hinside := hends (.invoke p inputs) { w with calls := w.calls.push p.name } hw
      refine .of_job (.invoke p inputs) { w with calls := w.calls.push p.name } hcall hw
        Outcome.closeCall rfl ?_ fun f w' hleave => ?_
      · exact hinside.closeCall fun w' h => ⟨by simp [World.dropCall, h.calls], h.hosts⟩
      · obtain ⟨g, v, hrun, rfl⟩ := Outcome.exists_of_closeCall hleave
        rw [hrun] at hinside
        exact ⟨g, hinside.calls ▸ .called rfl hrun⟩
    · simp only [bind_exit (enter_tooDeep habort hdeep)]
      exact .fault ⟨rfl, hw⟩ (.refused rfl)

theorem step (hread : eng.read = Engine.parse) {job : Job}
    (hjob : job.Sound (Expr.Hosts HostAction.Unrecorded)) :
    Traced eng _ fun cut => TurtleLogo.step (eng.without cut) job := by
  have hengines : Engines none (Expr.Hosts HostAction.Unrecorded) (Traced eng) eng.without :=
    { read := fun atoms _ hk => by
        simp only [Engine.without_read, hread]
        exact parse atoms hk
      execute := fun code keep => run hends (.execute code keep) trivial
      force := fun {e} he => run hends (.force e) he
      call := fun hcall => call hends hcall
      rounds := fun cut => by rw [Engine.without_rounds, Engine.without_rounds] }
  exact (compatible eng).step framed (respectsHosts eng) hengines hjob

end Run.Traced

/-! ## Whole runs -/

/-- In the run of a job the engine is asked to do another: if that one is cut off, then the run
is. -/
def Asks (eng : Engine) (job : Job) (w : World) (job' : Job) (v : World) : Prop :=
  step (eng.without (some (job', v))) job w = .exhausted

/-- The fault `f` with which a job fails is raised while `calls` are running. If it is that of a job
which was asked for, it is raised where that one raises it; if it is the fault of a definition that
was entered, then in there; and otherwise by the job itself. -/
inductive RaisedUnder : Nat → Job → World → Fault → Array String → Prop where
  | own {fuel : Nat} {job : Job} {w w' : World} {f : Fault} :
    interpret (fuel + 1) job w = .exit (.fault f) w' →
    (∀ job' v g, Asks (engineOn fuel) job w job' v →
      ¬ Fault.From (engineOn fuel) w.calls job' v g f) →
    (∀ definer, ¬ f.OfDefinition definer w.calls) → RaisedUnder (fuel + 1) job w f w.calls
  | definition {fuel : Nat} {job : Job} {w w' : World} {f : Fault} {definer : Procedure} :
    interpret (fuel + 1) job w = .exit (.fault f) w' → f.OfDefinition definer w.calls →
      RaisedUnder (fuel + 1) job w f (w.calls.push definer.name)
  | inner {fuel : Nat} {job job' : Job} {w w' v : World} {f g : Fault} {calls : Array String} :
    interpret (fuel + 1) job w = .exit (.fault f) w' → Asks (engineOn fuel) job w job' v →
    Fault.From (engineOn fuel) w.calls job' v g f → RaisedUnder fuel job' v g calls →
      RaisedUnder (fuel + 1) job w f calls

theorem Fault.From.fails {calls : Array String} {job : Job} {v : World} {g f : Fault}
    (h : Fault.From eng calls job v g f) : ∃ v', eng.run job v = .exit (.fault g) v' := by
  cases h with
  | asked _ hrun => exact ⟨_, hrun⟩
  | called _ hrun => exact ⟨_, hrun⟩

/-- Every fault has a place where it was raised. -/
theorem exists_raisedUnder (fuel : Nat) :
    ∀ {job : Job} {w w' : World} {f : Fault}, interpret fuel job w = .exit (.fault f) w' →
      ∃ raised, RaisedUnder fuel job w f raised := by
  induction fuel with
  | zero =>
    intro job w w' f hfails
    cases hfails
  | succ fuel ih =>
    intro job w w' f hfails
    by_cases hinner : ∃ job' v g, Asks (engineOn fuel) job w job' v ∧
        Fault.From (engineOn fuel) w.calls job' v g f
    · obtain ⟨job', v, g, hasks, hfrom⟩ := hinner
      obtain ⟨v', hrun⟩ := hfrom.fails
      obtain ⟨raised, hraised⟩ := ih hrun
      exact ⟨raised, .inner hfails hasks hfrom hraised⟩
    · by_cases hdefinition : ∃ definer, f.OfDefinition definer w.calls
      · obtain ⟨definer, hdefiner⟩ := hdefinition
        exact ⟨_, .definition hfails hdefiner⟩
      · refine ⟨w.calls, .own hfails (fun job' v g hasks hfrom => ?_) fun definer h => ?_⟩
        · exact hinner ⟨job', v, g, hasks, hfrom⟩
        · exact hdefinition ⟨definer, h⟩

/-- The procedures of a fault that comes out of a run are those that were running where it was
raised. They are not recorded yet if those are the ones with which the run started. -/
structure Fault.Attributed (f : Fault) (started raised : Array String) : Prop where
  within : started.toList <+: raised.toList
  recorded : f.stack = raised.toList ∨ (f.stack = [] ∧ raised = started)

namespace Fault

variable {f : Fault} {calls raised : Array String} {name : String}

theorem OfDefinition.stack_eq {definer : Procedure} (h : f.OfDefinition definer calls) :
    f.stack = (calls.push definer.name).toList := by
  obtain ⟨ctx, s, s', rfl, habort, hdepth, hfail⟩ := h
  rw [(Parse.stack_of_define hfail).2.2 habort hdepth, Array.toList_push]

theorem Attributed.nil_or_started (h : f.Attributed calls raised) :
    f.stack = [] ∨ calls.toList <+: f.stack := by
  rcases h.recorded with hstack | ⟨hstack, -⟩
  · exact Or.inr (hstack ▸ h.within)
  · exact Or.inl hstack

theorem record_of_ne_nil (h : f.stack ≠ []) : f.record calls = f := by
  simp [record, h]

theorem record_of_nil (h : f.stack = []) : (f.record calls).stack = calls.toList := by
  simp [record, h]

/-- What leaving a procedure records is right. -/
theorem Attributed.record (h : f.Attributed (calls.push name) raised) :
    (f.record (calls.push name)).Attributed calls raised := by
  have hcalls : calls.toList <+: (calls.push name).toList := by simp
  -- An empty stack stands for "not recorded yet"; here something is always running.
  have hne : raised.toList ≠ [] := by
    intro hnil
    have hwithin := h.within
    rw [hnil, List.prefix_nil] at hwithin
    simp at hwithin
  refine ⟨hcalls.trans h.within, Or.inl ?_⟩
  rcases h.recorded with hstack | ⟨hstack, hraised⟩
  · rw [record_of_ne_nil (hstack ▸ hne)]
    exact hstack
  · exact (record_of_nil hstack).trans (hraised ▸ rfl)

theorem Attributed.started_record (h : f.Attributed calls raised) :
    calls.toList <+: (f.record calls).stack := by
  by_cases hstack : f.stack = []
  · rw [record_of_nil hstack]
  · rw [record_of_ne_nil hstack]
    exact h.nil_or_started.resolve_left hstack

/-- A fault is attributed to one place only. -/
theorem Attributed.unique {raised' : Array String} (h : f.Attributed calls raised)
    (h' : f.Attributed calls raised') : raised' = raised := by
  -- If nothing is recorded, then what was running there is nothing, or what the run started with.
  have hnil : ∀ {raised : Array String}, f.Attributed calls raised → f.stack = [] →
      raised = calls := by
    intro raised h hstack
    rcases h.recorded with hraised | ⟨-, hraised⟩
    · have hempty : raised.toList = [] := hraised.symm.trans hstack
      have hwithin := h.within
      rw [hempty, List.prefix_nil] at hwithin
      exact Array.toList_inj.mp (hempty.trans hwithin.symm)
    · exact hraised
  by_cases hstack : f.stack = []
  · rw [hnil h hstack, hnil h' hstack]
  · have hraised := h.recorded.resolve_right fun hempty => hstack hempty.1
    have hraised' := h'.recorded.resolve_right fun hempty => hstack hempty.1
    exact Array.toList_inj.mp (hraised'.symm.trans hraised)

end Fault

theorem traceable_of_engineOn (fuel : Nat) (job : Job) (w : World)
    (hw : w.procedures.Hosts HostAction.Unrecorded) :
    ((engineOn fuel).run job w).Ends (World.Traceable w.calls) := by
  have hcalls := (Balanced.law.engineOn fuel).run job w
  have hhosts := (Registry.Hosts.law (P := HostAction.Unrecorded) |>.engineOn fuel).run job w
  cases hrun : (engineOn fuel).run job w with
  | done v w' => rw [hrun] at hcalls hhosts; exact ⟨hcalls.calls, hhosts hw⟩
  | exit e w' => rw [hrun] at hcalls hhosts; exact ⟨hcalls.calls, hhosts hw⟩
  | exhausted => exact trivial

/-- A fault is attributed to the place where it was raised. -/
theorem RaisedUnder.attributed {fuel : Nat} {job : Job} {w : World} {f : Fault}
    {calls : Array String} (h : RaisedUnder fuel job w f calls)
    (hjob : job.Sound (Expr.Hosts HostAction.Unrecorded))
    (hw : w.procedures.Hosts HostAction.Unrecorded) : f.Attributed w.calls calls := by
  induction h with
  | @own fuel job w w' f hfails hinner hdefinition =>
    refine ⟨List.prefix_refl _, ?_⟩
    rw [interpret_eq_step] at hfails
    cases Run.Traced.step (traceable_of_engineOn fuel) rfl hjob w hw with
    | exhausted hcut => exact absurd (hcut.symm.trans hfails) nofun
    | ended _ _ _ horigin =>
      cases horigin f w' hfails with
      | known hknown => exact hknown.elim
      | asked hasks hfrom => exact absurd hfrom (hinner _ _ _ hasks)
      | own hown =>
        cases hown with
        | unrecorded hstack => exact Or.inr ⟨hstack, rfl⟩
        | refused hstack => exact Or.inl hstack
        | definition definer hdefiner => exact absurd hdefiner (hdefinition definer)
  | definition hfails hdefiner => exact ⟨by simp, Or.inl hdefiner.stack_eq⟩
  | @inner fuel job job' w w' v f g calls hfails hasks hfrom _ ih =>
    rw [interpret_eq_step] at hfails
    cases Run.Traced.step (traceable_of_engineOn fuel) rfl hjob w hw with
    | exhausted hcut => exact absurd (hcut.symm.trans hfails) nofun
    | ended _ hasked _ _ =>
      obtain ⟨hjob', hv⟩ := hasked job' v hasks
      have hattributed := ih hjob' hv
      cases hfrom with
      | asked hcalls _ => exact hcalls ▸ hattributed
      | called hcalls _ => exact (hcalls ▸ hattributed : g.Attributed _ calls).record

/-- A call that has been entered and fails names at least the procedures that were running and the
one it calls. -/
theorem calls_prefix_of_call {fuel : Nat} {p : Procedure} {inputs : List Expr} {w w' : World}
    {f : Fault} (hw : w.procedures.Hosts HostAction.Unrecorded)
    (hcall : (Expr.call p inputs).Hosts HostAction.Unrecorded) (habort : w.aborted = false)
    (hdepth : w.calls.size < w.limit)
    (h : call (engineOn fuel) p inputs w = .exit (.fault f) w') :
    w.calls.toList ++ [p.name] <+: f.stack := by
  unfold call at h
  rw [Run.bind_done (enter_done habort hdepth)] at h
  obtain ⟨g, v, hjob⟩ := exists_fault_of_leaving h
  rw [leaving_fault hjob] at h
  obtain ⟨hf, -⟩ := Outcome.exit.inj h
  have hends := traceable_of_engineOn fuel (.invoke p inputs)
    { w with calls := w.calls.push p.name } hw
  rw [hjob] at hends
  obtain ⟨raised, hraised⟩ := exists_raisedUnder fuel hjob
  have hattributed := hraised.attributed hcall hw
  rw [← Array.toList_push, ← Exit.fault.inj hf, hends.calls]
  exact hattributed.started_record

/-- The procedures that a fault names are those that were running where it was raised, if hosts
record none in the faults that they make up. They may go on after a fault, and pass it on.

* A call that is refused names none if the program is to stop, and the running ones if there are too
  many. Once it has been entered, a fault names these, the procedure called and maybe more behind.
* A run that fails names none, or the procedures with which it started and maybe more behind them.
  There is one place where the fault was raised, and those that were running there are named, unless
  the run raised it with no call in between, in which case there may be none yet.
* A definition is refused as a call is. Once it has been entered, a fault names the running
  procedures and the definition itself. -/
theorem fault_names_running (fuel : Nat) {w : World}
    (hhosts : w.procedures.Hosts HostAction.Unrecorded) :
    (∀ p inputs,
      (w.aborted = true →
        call (engineOn fuel) p inputs w = .exit (.fault { cause := .aborted, stack := [] }) w) ∧
      (w.aborted = false → w.limit ≤ w.calls.size →
        call (engineOn fuel) p inputs w
          = .exit (.fault { cause := .tooDeep w.limit, stack := w.calls.toList }) w) ∧
      (w.aborted = false → w.calls.size < w.limit →
        (Expr.call p inputs).Hosts HostAction.Unrecorded →
        ∀ f w', call (engineOn fuel) p inputs w = .exit (.fault f) w' →
          w.calls.toList ++ [p.name] <+: f.stack)) ∧
    (∀ job f w', job.Sound (Expr.Hosts HostAction.Unrecorded) →
      interpret fuel job w = .exit (.fault f) w' →
      (f.stack = [] ∨ w.calls.toList <+: f.stack) ∧
      ∃ raised, (∀ calls, RaisedUnder fuel job w f calls ↔ calls = raised) ∧
        f.Attributed w.calls raised) ∧
    ∀ definer ctx s f s', Parse.define definer ctx s = .fail f s' →
      (ctx.aborted = true → f.stack = []) ∧
      (ctx.aborted = false → ctx.limit ≤ ctx.calls.size → f.stack = ctx.calls.toList) ∧
      (ctx.aborted = false → ctx.calls.size < ctx.limit →
        f.stack = ctx.calls.toList ++ [definer.name]) := by
  refine ⟨fun p inputs => ⟨fun habort => ?_, fun habort hdeep => ?_, fun habort hdepth hcall => ?_⟩,
    fun job f w' hjob hfails => ?_, fun _ _ _ _ _ => Parse.stack_of_define⟩
  · exact Run.bind_exit (enter_aborted habort) _
  · exact Run.bind_exit (enter_tooDeep habort hdeep) _
  · intro f w' hfails
    exact calls_prefix_of_call hhosts hcall habort hdepth hfails
  · obtain ⟨raised, hraised⟩ := exists_raisedUnder fuel hfails
    have hattributed := hraised.attributed hjob hhosts
    refine ⟨hattributed.nil_or_started, raised, fun calls => ⟨fun h => ?_, ?_⟩, hattributed⟩
    · exact hattributed.unique (h.attributed hjob hhosts)
    · rintro rfl
      exact hraised

/-- `G` is not defined. `F` calls it: the fault is raised in `F`, and names it. `TRY` is a primitive
of a host that goes on after a fault and passes on that of `F`. `TO TO END` is refused, and the
fault names `TO`. -/
theorem fault_names_running_inner : ∃ w : World,
    w.procedures.Hosts HostAction.Unrecorded ∧
    (∃ f w', call (engineOn 8) ⟨"F", .defined ⟨[], [], none, 0, [.word "g"]⟩, .fixed 0⟩ [] w
        = .exit (.fault f) w' ∧ ["F"] <+: f.stack) ∧
    (∃ f w', interpret 12 (.execute [.word "try"] false) w = .exit (.fault f) w' ∧
      f.stack = ["TRY", "F"] ∧
      ∃ raised, RaisedUnder 12 (.execute [.word "try"] false) w f raised ∧
        f.Attributed #[] raised) ∧
    ∃ f s', Parse.define ⟨"TO", .definer, .fixed 0⟩ ⟨#[], 8, false⟩
        ⟨[.word "to", .word "end"], ⟨[("to", ⟨"TO", .definer, .fixed 0⟩)]⟩⟩ = .fail f s' ∧
      f.stack = ["TO"] := by
  obtain ⟨r, hr⟩ : ∃ r : Registry, r = ⟨[
      ("f", ⟨"F", .defined ⟨[], [], none, 0, [.word "g"]⟩, .fixed 0⟩),
      ("try", ⟨"TRY", .host fun _ => .attempt [.word "g"] false fun _ =>
        .execute [.word "f"] false .finish, .fixed 0⟩)]⟩ := ⟨_, rfl⟩
  have hhosts : r.Hosts HostAction.Unrecorded := by
    rw [hr]
    refine .of_entries (List.forall_mem_cons.mpr ⟨nofun, List.forall_mem_singleton.mpr ?_⟩)
    rintro act ⟨⟩ args result
    exact fun
      | .ok v => trivial
      | .error e => trivial
  obtain ⟨f, v, hcall⟩ : ∃ f v, call (engineOn 8)
      ⟨"F", .defined ⟨[], [], none, 0, [.word "g"]⟩, .fixed 0⟩ [] { procedures := r }
        = .exit (.fault f) v := by
    rw [hr]
    exact ⟨_, _, rfl⟩
  have hstack :
      (interpret 12 (.execute [.word "try"] false) { procedures := r }).fault?.map (·.stack)
        = some ["TRY", "F"] := by
    rw [hr]
    decide +kernel
  obtain ⟨g, hfault, hstack⟩ := Option.map_eq_some_iff.mp hstack
  obtain ⟨v', hrun⟩ := Outcome.exists_of_fault? hfault
  have hdefine : Parse.define ⟨"TO", .definer, .fixed 0⟩ ⟨#[], 8, false⟩
      ⟨[.word "to", .word "end"], ⟨[("to", ⟨"TO", .definer, .fixed 0⟩)]⟩⟩ = .fail _ _ := rfl
  obtain ⟨hnames, -, -⟩ := fault_names_running 8 (w := { procedures := r }) hhosts
  obtain ⟨-, hraises, hdefines⟩ := fault_names_running 12 (w := { procedures := r }) hhosts
  obtain ⟨-, raised, hraised, hattributed⟩ :=
    hraises (.execute [.word "try"] false) g v' trivial hrun
  refine ⟨{ procedures := r }, hhosts, ⟨f, v, hcall, ?_⟩, ⟨g, v', hrun, hstack, raised, ?_⟩,
    ⟨_, _, hdefine, ?_⟩⟩
  · have hf : (Expr.call ⟨"F", .defined ⟨[], [], none, 0, [.word "g"]⟩, .fixed 0⟩ []).Hosts
        HostAction.Unrecorded := .call (fun _ hbody => nomatch hbody) (by simp)
    exact (hnames _ _).2.2 rfl (by decide : 0 < defaultLimit) hf f v hcall
  · exact ⟨(hraised raised).mpr rfl, hattributed⟩
  · exact (hdefines _ _ _ _ _ hdefine).2.2 rfl (by decide)

end TurtleLogo
