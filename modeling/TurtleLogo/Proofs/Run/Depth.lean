import TurtleLogo.Proofs.Run.Attribution

set_option autoImplicit false

/-! # How deep a program is

At every moment of a run no more procedures are running than the limit allows, and there is one
frame for the whole program and one for each definition whose defaults or body are running.

To speak of every moment, the run is repeated with a guard. The guarded interpreter keeps a list of
the running procedures of its own, does everything that the interpreter does, and shows the guard
this list and the state wherever something is read, a primitive starts or a definition is run. If
the guard finds something wrong it raises an alarm: a fault that leaves the state under another
limit. No program can change the limit, so an alarm is not mistaken for anything else, and hosts are
kept from going on after one. The run ends with it. So a guard under which every program runs as it
does without, whatever the alarm, is never given cause to raise one. -/

namespace TurtleLogo

variable {α β : Type} {w : World}

/-! ## What is to hold at every moment -/

/-- A running procedure. -/
structure Activation where
  name : String
  /-- Whether it has a frame of its own: it is a definition, and its inputs have been evaluated. -/
  inFrame : Bool

variable {running : List Activation}

/-- The state is what it should be while `running` are running, outermost first, under `limit`. -/
structure World.Fits (limit : Nat) (running : List Activation) (w : World) : Prop where
  calls : w.calls.toList = running.map (·.name)
  bounded : w.calls.size ≤ limit
  frames : w.frames.depth = 1 + running.countP (·.inFrame)
  limit_eq : w.limit = limit

instance (limit : Nat) (running : List Activation) (w : World) : Decidable (w.Fits limit running) :=
  decidable_of_iff (w.calls.toList = running.map (·.name) ∧ w.calls.size ≤ limit ∧
      w.frames.depth = 1 + running.countP (·.inFrame) ∧ w.limit = limit)
    ⟨fun ⟨hcalls, hbounded, hframes, hlimit⟩ => ⟨hcalls, hbounded, hframes, hlimit⟩,
      fun h => ⟨h.calls, h.bounded, h.frames, h.limit_eq⟩⟩

namespace World.Fits

variable {limit : Nat} {name : String}

/-- There are no more frames than running procedures and the one for the whole program. -/
theorem frames_bounds (h : w.Fits limit running) :
    1 ≤ w.frames.depth ∧ w.frames.depth ≤ w.calls.size + 1 := by
  have hsize : w.calls.size = running.length := by
    rw [← Array.length_toList, h.calls, List.length_map]
  have hcount : running.countP (·.inFrame) ≤ running.length := List.countP_le_length
  have hframes := h.frames
  omega

/-- What changes neither the running procedures nor the number of frames nor the limit. -/
theorem congr (h : w.Fits limit running) {w' : World} (hcalls : w'.calls = w.calls)
    (hframes : w'.frames.depth = w.frames.depth) (hlimit : w'.limit = w.limit) :
    w'.Fits limit running := by
  refine ⟨?_, ?_, ?_, hlimit.trans h.limit_eq⟩
  · rw [hcalls, h.calls]
  · rw [hcalls]
    exact h.bounded
  · rw [hframes, h.frames]

theorem enter (h : w.Fits limit running) (hdepth : w.calls.size < w.limit) :
    World.Fits limit (running ++ [⟨name, false⟩]) { w with calls := w.calls.push name } := by
  refine ⟨?_, ?_, ?_, h.limit_eq⟩
  · simp [h.calls]
  · rw [Array.size_push, ← h.limit_eq]
    exact hdepth
  · simpa using h.frames

theorem dropCall (h : w.Fits limit (running ++ [⟨name, false⟩])) :
    w.dropCall.Fits limit running := by
  have hcalls : w.calls.toList = running.map (·.name) ++ [name] := by simpa using h.calls
  have hbounded := h.bounded
  refine ⟨?_, ?_, ?_, h.limit_eq⟩
  · simp [World.dropCall, hcalls]
  · simp only [World.dropCall, Array.size_pop]
    omega
  · simpa [World.dropCall] using h.frames

/-- The procedure that was called last gets a frame. -/
theorem push (h : w.Fits limit (running ++ [⟨name, false⟩])) :
    World.Fits limit (running ++ [⟨name, true⟩]) { w with frames := w.frames.push } := by
  have hframes : w.frames.depth = 1 + running.countP (·.inFrame) := by simpa using h.frames
  refine ⟨?_, h.bounded, ?_, h.limit_eq⟩
  · simpa using h.calls
  · simp [Frames.depth, Frames.push] at hframes ⊢
    omega

theorem pop (h : w.Fits limit (running ++ [⟨name, true⟩])) :
    World.Fits limit (running ++ [⟨name, false⟩]) { w with frames := w.frames.pop } := by
  have hframes : w.frames.depth = 1 + (running.countP (·.inFrame) + 1) := by simpa using h.frames
  refine ⟨?_, h.bounded, ?_, h.limit_eq⟩
  · simpa using h.calls
  · simp [Frames.depth, Frames.pop] at hframes ⊢
    omega

end World.Fits

/-- No program changes the limit. -/
theorem limit_law : Run.Law fun w w' => w'.limit = w.limit where
  refl _ := rfl
  trans h₁ h₂ := h₂.trans h₁
  turtle _ _ := rfl
  assign _ _ _ := rfl
  bindLocal _ _ _ := rfl
  declareLocal _ _ := rfl
  setTest _ _ := rfl
  write _ _ := rfl
  setAborted _ _ := rfl
  define _ := rfl
  counted _ h := h
  called _ h := h
  framed h := h

/-! ## The guarded interpreter -/

/-- Says of the running procedures and the state whether they are as they should be. -/
abbrev Guard := List Activation → World → Bool

namespace Guard

/-- Shows the guard the running procedures and the state. An alarm changes the limit. -/
def check (guard : Guard) (alarm : Fault) (running : List Activation) : Run Unit :=
  fun w =>
    if guard running w then .done () w
    else .exit (.fault alarm) { w with limit := w.limit + 1 }

/-- Reads an expression. -/
def read (guard : Guard) (alarm : Fault) (running : List Activation) (atoms : List Atom) :
    Run (Expr × List Atom) := do
  guard.check alarm running
  Engine.parse atoms

/-- Goes on with the value of a run, or with what ended it early unless that was an alarm. -/
def attempt (m : Run α) (f : Except Exit α → Run β) : Run β :=
  fun w =>
    match m w with
    | .done a w' => f (.ok a) w'
    | .exit e w' => if w'.limit = w.limit then f (.error e) w' else .exit e w'
    | .exhausted => .exhausted

/-- Carries out what a host primitive does. -/
def perform (eng : Engine) : {handed : List Exit} → HostAction handed → Run (Option Atom)
  | _, .finish v => pure v
  | _, .fail kind message stack => Run.exit (.fault { cause := .host kind message, stack })
  | _, .stop => Run.exit .stop
  | _, .output a => Run.exit (.output a)
  | _, .passOn e _ => Run.exit e
  | _, .abort next => do
    Run.modify fun w => { w with aborted := true }
    perform eng next
  | _, .resume next => do
    Run.modify fun w => { w with aborted := false }
    perform eng next
  | _, .assign name a next => do
    Run.modify (·.assign name a)
    perform eng next
  | _, .observe next => fun w => perform eng (next w.glimpse) w
  | _, .attempt code keep next =>
    attempt (eng.execute code keep) fun result => perform eng (next result)

/-- Runs a procedure that has been entered while `running` were running. -/
def invoke (guard : Guard) (alarm : Fault) (eng : List Activation → Engine)
    (running : List Activation) (p : Procedure) (inputs : List Expr) : Run (Option Atom) :=
  let called := running ++ [⟨p.name, false⟩]
  let inside := running ++ [⟨p.name, true⟩]
  match p.body with
  | .deferred q => do
    guard.check alarm called
    q.apply (eng called) p.name inputs
  | .definer => do
    guard.check alarm called
    pure none
  | .primitive q => do
    let args ← forceInputs (eng called) p.name inputs
    guard.check alarm called
    q.apply (eng called) p.name args
  | .host act => do
    let args ← forceInputs (eng called) p.name inputs
    guard.check alarm called
    perform (eng called) (act args)
  | .defined d => do
    let args ← forceInputs (eng called) p.name inputs
    framed do
      guard.check alarm inside
      bindAll (eng inside) d args
      guard.check alarm inside
      (eng inside).perform d.body

/-- Does one job, with other jobs left to the engine for those that are running then. -/
def step (guard : Guard) (alarm : Fault) (eng : List Activation → Engine)
    (running : List Activation) : Job → Run (Option Atom)
  | .execute code keep => execute (eng running) code keep
  | .force e => force (eng running) e
  | .invoke p inputs => guard.invoke alarm eng running p inputs

/-- Runs a job under the eyes of the guard. -/
def interpret (guard : Guard) (alarm : Fault) :
    Nat → List Activation → Job → Run (Option Atom)
  | 0, _, _ => fun _ => .exhausted
  | fuel + 1, running, job =>
    guard.step alarm
      (fun running => ⟨guard.interpret alarm fuel running, guard.read alarm running, fuel⟩)
      running job

/-- The engine with a given amount of fuel for a job while `running` are running. -/
def engineOn (guard : Guard) (alarm : Fault) (fuel : Nat) (running : List Activation) : Engine :=
  ⟨guard.interpret alarm fuel running, guard.read alarm running, fuel⟩

theorem interpret_succ (guard : Guard) (alarm : Fault) (fuel : Nat) (running : List Activation)
    (job : Job) : guard.interpret alarm (fuel + 1) running job
      = guard.step alarm (guard.engineOn alarm fuel) running job := rfl

theorem check_bind {guard : Guard} (alarm : Fault) (h : guard running w = true) (m : Run α) :
    (guard.check alarm running >>= fun _ => m) w = m w :=
  Run.bind_done (if_pos h) _

theorem attempt_done {m : Run α} {a : α} {w' : World} (h : m w = .done a w')
    (f : Except Exit α → Run β) : attempt m f w = f (.ok a) w' := by
  rw [attempt, h]

theorem attempt_exit {m : Run α} {e : Exit} {w' : World} (h : m w = .exit e w')
    (hlimit : w'.limit = w.limit) (f : Except Exit α → Run β) :
    attempt m f w = f (.error e) w' := by
  rw [attempt, h]
  exact if_pos hlimit

theorem attempt_exhausted {m : Run α} (h : m w = .exhausted) (f : Except Exit α → Run β) :
    attempt m f w = .exhausted := by
  rw [attempt, h]

/-- Where there are no alarms, hosts go on as they do without a guard. -/
theorem attempt_eq {m : Run α} (h : ∀ w, (m w).Ends fun w' => w'.limit = w.limit)
    (f : Except Exit α → Run β) : attempt m f = Run.attempt m f := by
  funext w
  have hlimit := h w
  cases hr : m w with
  | done a w' => rw [attempt_done hr, Run.attempt_done hr]
  | exit e w' =>
    rw [hr] at hlimit
    rw [attempt_exit hr hlimit, Run.attempt_exit hr]
  | exhausted => rw [attempt_exhausted hr, Run.attempt_exhausted hr]

theorem perform_eq {eng : Engine}
    (h : ∀ code keep w, (eng.execute code keep w).Ends fun w' => w'.limit = w.limit)
    {handed : List Exit} (act : HostAction handed) : perform eng act = act.perform eng := by
  induction act with
  | abort next ih => simp only [perform, HostAction.perform, ih]
  | resume next ih => simp only [perform, HostAction.perform, ih]
  | assign name a next ih => simp only [perform, HostAction.perform, ih]
  | observe next ih => exact funext fun w => congrFun (ih w.glimpse) w
  | attempt code keep next ih =>
    simp only [perform, HostAction.perform, attempt_eq (h code keep), ih]
  | _ => rfl

/-- Under a guard that finds nothing wrong, the interpreter is the one without a guard. -/
theorem interpret_content (alarm : Fault) (fuel : Nat) : ∀ (running : List Activation) (job : Job),
    interpret (fun _ _ => true) alarm fuel running job = TurtleLogo.interpret fuel job := by
  induction fuel with
  | zero => intro running job; rfl
  | succ fuel ih =>
    intro running job
    have hread : ∀ running, read (fun _ _ => true) alarm running = Engine.parse := fun _ => rfl
    have hengine : engineOn (fun _ _ => true) alarm fuel = fun _ => TurtleLogo.engineOn fuel := by
      funext running
      unfold engineOn TurtleLogo.engineOn
      rw [hread, funext (ih running)]
    have hlimit := fun code keep => (limit_law.engineOn fuel).run (.execute code keep)
    rw [interpret_succ, hengine, interpret_eq_step]
    -- A check that finds nothing wrong does nothing, so but for hosts the steps are the same by
    -- computation.
    cases job with
    | execute code keep => rfl
    | force e => rfl
    | invoke p inputs =>
      simp only [step, TurtleLogo.step, invoke, TurtleLogo.invoke]
      cases p.body with
      | deferred q => rfl
      | definer => rfl
      | primitive q => rfl
      | host act =>
        simp only [perform_eq hlimit]
        rfl
      | defined d => rfl

end Guard

/-! ## Two guards that never have cause for alarm -/

/-- If the fault says that calls were nested too deep, and is not of a host's own making, then just
as many procedures are recorded as the limit allows. -/
def Fault.Measured (limit : Nat) (f : Fault) : Prop :=
  f.cause.kind = .depthExceeded → (∀ message, f.cause ≠ .host .depthExceeded message) →
    f.stack.length = limit

theorem Fault.measured_of_kind {limit : Nat} {f : Fault} (h : f.cause.kind ≠ .depthExceeded) :
    f.Measured limit :=
  fun hkind => absurd hkind h

theorem Fault.measured_of_unreserved {limit : Nat} {f : Fault} (h : f.cause.isReserved = false) :
    f.Measured limit := by
  intro hkind hhost
  obtain ⟨cause, stack⟩ := f
  cases cause with
  | host kind message =>
    obtain rfl : kind = .depthExceeded := hkind
    exact absurd rfl (hhost message)
  | unsuitable kind consumer value =>
    obtain rfl : kind = .depthExceeded := hkind
    cases h
  | tooDeep limit => cases h
  | _ => cases hkind

/-- A fault that is measured where there is room for a call has names recorded, and recording adds
nothing to them. -/
theorem Fault.Measured.record {limit : Nat} {f : Fault} (h : f.Measured limit) (hpos : 0 < limit)
    (calls : Array String) : (f.record calls).Measured limit := by
  by_cases hstack : f.stack = []
  · have hcause : (f.record calls).cause = f.cause := by simp [Fault.record, hstack]
    intro hkind hhost
    rw [hcause] at hkind hhost
    have hlength := h hkind hhost
    rw [hstack, List.length_nil] at hlength
    omega
  · rw [Fault.record_of_ne_nil hstack]
    exact h

/-- A definition that is refused for want of room records as many procedures as there is room
for. -/
theorem Parse.measured_of_define {definer : Procedure} {ctx : Parse.Context} {s s' : Parse.State}
    {limit : Nat} {f : Fault} (hlimit : ctx.limit = limit) (hbounded : ctx.calls.size ≤ limit)
    (h : Parse.define definer ctx s = .fail f s') : f.Measured limit := by
  rcases define_fail_inv h with
    ⟨-, rfl, -⟩ | ⟨-, hdeep, rfl, -⟩ | ⟨-, -, cause, rest, rfl, -, hwhy⟩
  · exact Fault.measured_of_kind (by simp [Cause.kind])
  · intro _ _
    rw [Array.length_toList]
    exact Nat.le_antisymm hbounded (hlimit ▸ hdeep)
  · refine Fault.measured_of_kind ?_
    rcases kind_of_refused hwhy with hkind | hkind <;> simp [hkind]

/-- The procedures that are running when a job begins: a procedure that is to be run has been
entered. -/
def Job.activations (running : List Activation) : Job → List Activation
  | invoke p _ => running ++ [⟨p.name, false⟩]
  | execute _ _ | force _ => running

/-- The run has ended while `running` are running under `limit`, and a fault is measured. -/
structure Outcome.Kept (limit : Nat) (running : List Activation) (o : Outcome α) : Prop where
  ends : o.Ends (World.Fits limit running)
  measured : ∀ f w, o = .exit (.fault f) w → f.Measured limit

theorem Outcome.Kept.done {limit : Nat} {a : α} (h : w.Fits limit running) :
    (Outcome.done a w).Kept limit running :=
  ⟨h, by simp⟩

theorem Outcome.Kept.fault {limit : Nat} {f : Fault} (h : w.Fits limit running)
    (hf : f.Measured limit) : (Outcome.exit (.fault f) w : Outcome α).Kept limit running := by
  refine ⟨h, fun f' w' hexit => ?_⟩
  obtain ⟨hf', -⟩ := Outcome.exit.inj hexit
  exact Exit.fault.inj hf' ▸ hf

namespace Run

/-- Started while `running` are running under `limit`, the two runs end alike, with `running` still
running, or the one in the place `least` is cut off. -/
def Agrees (least : Bool) (limit : Nat) (running : List Activation) (α : Type) (m : Bool → Run α) :
    Prop :=
  ∀ w, w.Fits limit running →
    m least w = .exhausted ∨ ∃ o, (∀ i, m i w = o) ∧ o.Kept limit running

variable {least : Bool} {limit : Nat}

theorem Agrees.same {m : Run α} (h : ∀ w, w.Fits limit running → (m w).Kept limit running) :
    Agrees least limit running α fun _ => m :=
  fun w hw => Or.inr ⟨m w, fun _ => rfl, h w hw⟩

theorem Agrees.done {m : Run α} {a : α} {f : World → World} (hm : ∀ w, m w = .done a (f w))
    (hf : ∀ w, w.Fits limit running → (f w).Fits limit running) :
    Agrees least limit running α fun _ => m :=
  Agrees.same fun w hw => hm w ▸ .done (hf w hw)

theorem Agrees.fault {f : Fault} (h : f.Measured limit) :
    Agrees least limit running α fun _ => Run.exit (.fault f) :=
  Agrees.same fun _ hw => .fault hw h

theorem Agrees.bind {m : Bool → Run α} {f : Bool → α → Run β}
    (hm : Agrees least limit running α m)
    (hf : ∀ a, Agrees least limit running β fun i => f i a) :
    Agrees least limit running β fun i => m i >>= f i := by
  intro w hw
  rcases hm w hw with hcut | ⟨o, hall, hkept⟩
  · exact Or.inl (bind_exhausted hcut _)
  · cases o with
    | exhausted => exact Or.inl (bind_exhausted (hall least) _)
    | exit e w₁ =>
      refine Or.inr ⟨.exit e w₁, fun i => bind_exit (hall i) _, hkept.ends, fun f w₂ hexit => ?_⟩
      obtain ⟨rfl, rfl⟩ := Outcome.exit.inj hexit
      exact hkept.measured f w₁ rfl
    | done a w₁ =>
      have hdone : ∀ i, (m i >>= f i) w = f i a w₁ := fun i => bind_done (hall i) _
      simp only [hdone]
      exact hf a w₁ hkept.ends

theorem Agrees.heedAbort : Agrees least limit running Unit fun _ => Run.heedAbort := by
  refine Agrees.same fun w hw => ?_
  cases habort : w.aborted with
  | true =>
    rw [heedAbort_stop habort]
    exact .fault hw (Fault.measured_of_kind (by simp [Cause.kind]))
  | false =>
    rw [heedAbort_go habort]
    exact .done hw

theorem Agrees.parse (atoms : List Atom) :
    Agrees least limit running _ fun _ => Engine.parse atoms := by
  refine Agrees.same fun w hw => ?_
  rcases Engine.parse_cases atoms w with ⟨e, s, -, hparse⟩ | ⟨f, s, hread, hparse⟩
  · rw [hparse]
    exact .done (hw.congr rfl rfl rfl)
  · rw [hparse]
    refine .fault (hw.congr rfl rfl rfl) ?_
    rcases Parse.Blames.congruence.expression atoms.length w.parseContext _ f s hread with
      ⟨-, hcause⟩ | ⟨definer, s₁, s₂, hdefine⟩
    · exact Fault.measured_of_unreserved hcause
    · exact Parse.measured_of_define hw.limit_eq hw.bounded hdefine

theorem Agrees.counted (n : Nat) {m : Bool → Run Unit} (hm : Agrees least limit running Unit m) :
    Agrees least limit running Unit fun i => Act.counted n (m i) := by
  intro w hw
  simp only [Act.counted_apply]
  rcases hm (Act.withRepcount n w) (hw.congr rfl rfl rfl) with
    hcut | ⟨o, hall, hkept⟩
  · exact Or.inl (by rw [hcut]; rfl)
  · refine Or.inr ⟨Act.restore w.repcount o, fun i => by rw [hall i], ?_⟩
    refine ⟨Act.Ends.restore hkept.ends _ fun w₁ hw₁ => hw₁.congr rfl rfl rfl, fun f w₂ hexit => ?_⟩
    obtain ⟨w₁, rfl⟩ := Act.exists_of_restore hexit
    exact hkept.measured f w₁ rfl

/-- If neither of the two runs need be cut off for it, they end alike. -/
theorem Agrees.both {m : Bool → Run α} (h : ∀ least, Agrees least limit running α m)
    (hw : w.Fits limit running) : ∃ o, (∀ i, m i w = o) ∧ o.Kept limit running := by
  rcases h false w hw with hcut | hsame
  · rcases h true w hw with hcut' | hsame
    · refine ⟨.exhausted, fun i => ?_, trivial, by simp⟩
      cases i with
      | false => exact hcut
      | true => exact hcut'
    · exact hsame
  · exact hsame

theorem Agrees.cutsOff : CutsOff least (Agrees least limit running) :=
  fun hleast w _ => Or.inl (hleast w)

theorem Agrees.compatible (least : Bool) (limit : Nat) (running : List Activation) :
    Compatible least (fun _ => True) (Agrees least limit running) where
  done a := .done (fun _ => rfl) fun _ hw => hw
  bind := Agrees.bind
  fail _ hcause := .fault (Fault.measured_of_unreserved hcause)
  stop := .same fun _ hw => ⟨hw, by simp [Run.exit]⟩
  output _ := .same fun _ hw => ⟨hw, by simp [Run.exit]⟩
  heedAbort := Agrees.heedAbort
  look view _ _ hk w hw := hk (view w) w hw
  onTurtle _ := .done (fun _ => rfl) fun _ hw => hw.congr rfl rfl rfl
  assign name a := .done (fun _ => rfl) fun w hw =>
    hw.congr rfl (w.frames.depth_assign name a) rfl
  bindLocal _ _ := .done (fun _ => rfl) fun w hw =>
    hw.congr rfl (w.frames.depth_modifyInnermost _) rfl
  declareLocal _ := .done (fun _ => rfl) fun w hw =>
    hw.congr rfl (w.frames.depth_modifyInnermost _) rfl
  setTest _ := .done (fun _ => rfl) fun w hw =>
    hw.congr rfl (w.frames.depth_modifyInnermost _) rfl
  write _ := .done (fun _ => rfl) fun _ hw => hw.congr rfl rfl rfl
  setAborted _ := .done (fun _ => rfl) fun _ hw => hw.congr rfl rfl rfl
  counted n _ hm := hm.counted n
  parse atoms _ hk := (Agrees.parse atoms).bind fun x => hk x.1 x.2 trivial
  negate _ := trivial
  binary _ := ⟨trivial, trivial⟩
  inputs _ _ _ := trivial
  supplied _ := Or.inr fun _ _ => .fault (Fault.measured_of_kind (by simp [Cause.kind]))
  loops _ _ := Agrees.cutsOff

/-! ## Calls and frames -/

theorem Agrees.framed {name : String} {m : Bool → Run Unit}
    (hm : Agrees least limit (running ++ [⟨name, true⟩]) Unit m) :
    Agrees least limit (running ++ [⟨name, false⟩]) _ fun i => framed (m i) := by
  intro w hw
  simp only [framed_apply]
  rcases hm { w with frames := w.frames.push } hw.push with hcut | ⟨o, hall, hkept⟩
  · exact Or.inl (by rw [hcut]; rfl)
  · refine Or.inr ⟨o.closeFrame, fun i => by rw [hall i], ?_, fun f w₂ hexit => ?_⟩
    · exact hkept.ends.closeFrame fun w₁ hw₁ => hw₁.pop
    · obtain ⟨w₁, rfl⟩ := Outcome.exists_of_closeFrame hexit
      exact hkept.measured f w₁ rfl

/-- A call that is refused for want of room records as many procedures as there is room for. -/
theorem Agrees.called {name : String} {m : Bool → Run (Option Atom)}
    (hm : Agrees least limit (running ++ [⟨name, false⟩]) _ m) :
    Agrees least limit running _ fun i => enter name >>= fun _ => leaving (m i) := by
  intro w hw
  cases habort : w.aborted with
  | true =>
    simp only [bind_exit (enter_aborted habort)]
    exact Or.inr ⟨_, fun _ => rfl, .fault hw (Fault.measured_of_kind (by simp [Cause.kind]))⟩
  | false =>
    rcases Nat.lt_or_ge w.calls.size w.limit with hdepth | hdeep
    · simp only [bind_done (enter_done habort hdepth), leaving_apply]
      rcases hm { w with calls := w.calls.push name } (hw.enter hdepth) with
        hcut | ⟨o, hall, hkept⟩
      · exact Or.inl (by rw [hcut]; rfl)
      · refine Or.inr ⟨o.closeCall, fun i => by rw [hall i], ?_, fun f w₂ hexit => ?_⟩
        · exact hkept.ends.closeCall fun w₁ hw₁ => hw₁.dropCall
        · obtain ⟨f₁, w₁, rfl, rfl⟩ := Outcome.exists_of_closeCall hexit
          -- The call was entered, so the limit is not zero, and a measured fault has names already.
          have hpos : 0 < limit := hw.limit_eq ▸ Nat.zero_lt_of_lt hdepth
          exact (hkept.measured f₁ w₁ rfl).record hpos w₁.calls
    · simp only [bind_exit (enter_tooDeep habort hdeep)]
      refine Or.inr ⟨_, fun _ => rfl, .fault hw fun _ _ => ?_⟩
      rw [Array.length_toList]
      exact Nat.le_antisymm hw.bounded (hw.limit_eq ▸ hdeep)

/-! ## Jobs -/

theorem Agrees.attempt {m : Bool → Run α} {f : Bool → Except Exit α → Run β}
    (hm : Agrees least limit running α m)
    (hok : ∀ a, Agrees least limit running β fun i => f i (.ok a))
    (herror : ∀ e, (∀ g, e = .fault g → g.Measured limit) →
      Agrees least limit running β fun i => f i (.error e)) :
    Agrees least limit running β fun i => Guard.attempt (m i) (f i) := by
  intro w hw
  rcases hm w hw with hcut | ⟨o, hall, hkept⟩
  · exact Or.inl (Guard.attempt_exhausted hcut _)
  · cases o with
    | exhausted => exact Or.inl (Guard.attempt_exhausted (hall least) _)
    | done a w₁ =>
      have hdone : ∀ i, Guard.attempt (m i) (f i) w = f i (.ok a) w₁ :=
        fun i => Guard.attempt_done (hall i) _
      simp only [hdone]
      exact hok a w₁ hkept.ends
    | exit e w₁ =>
      have hfits : w₁.Fits limit running := hkept.ends
      have hexit : ∀ i, Guard.attempt (m i) (f i) w = f i (.error e) w₁ :=
        fun i => Guard.attempt_exit (hall i) (hfits.limit_eq.trans hw.limit_eq.symm) _
      simp only [hexit]
      exact herror e (fun g he => hkept.measured g w₁ (by rw [he])) w₁ hfits

/-- Hosts end with faults of their own making or with those that they have been handed. -/
theorem Agrees.perform {eng : Bool → Engine}
    (hexecute : ∀ code keep, Agrees least limit running _ fun i => (eng i).execute code keep)
    {handed : List Exit} (act : HostAction handed)
    (hhanded : ∀ f, .fault f ∈ handed → f.Measured limit) :
    Agrees least limit running _ fun i => Guard.perform (eng i) act := by
  have h := Agrees.compatible least limit running
  induction act with
  | finish v => exact h.done v
  | fail kind message stack => exact .fault (Fault.measured_of_unreserved rfl)
  | stop => exact h.stop
  | output a => exact h.output a
  | passOn e hmem =>
    refine .same fun w hw => ⟨hw, fun f w' hexit => ?_⟩
    obtain ⟨rfl, -⟩ := Outcome.exit.inj hexit
    exact hhanded f hmem
  | abort next ih => exact h.bind (h.setAborted true) fun _ => ih hhanded
  | resume next ih => exact h.bind (h.setAborted false) fun _ => ih hhanded
  | assign name a next ih => exact h.bind (h.assign name a) fun _ => ih hhanded
  | observe next ih => exact h.look World.glimpse (fun _ _ _ => rfl) fun g => ih g hhanded
  | attempt code keep next ih =>
    refine (hexecute code keep).attempt (fun v => ih (.ok v) hhanded) fun e he => ?_
    refine ih (.error e) fun f hmem => ?_
    rcases List.mem_cons.mp hmem with hf | hmem
    · exact he f hf.symm
    · exact hhanded f hmem

section
variable {guards : Bool → Guard} (alarm : Fault)
variable (hguards : ∀ i running w, w.Fits limit running → guards i running w = true)
include hguards

theorem Agrees.checked {m : Bool → Run α} (hm : Agrees least limit running α m) :
    Agrees least limit running α fun i => (guards i).check alarm running >>= fun _ => m i := by
  intro w hw
  have hcheck : ∀ i, ((guards i).check alarm running >>= fun _ => m i) w = m i w :=
    fun i => Guard.check_bind alarm (hguards i running w hw) (m i)
  simp only [hcheck]
  exact hm w hw

theorem Agrees.engines {fuel : Nat}
    (hrun : ∀ job, Agrees least limit (job.activations running) _
      fun i => (guards i).interpret alarm fuel running job) :
    Engines least (fun _ => True) (Agrees least limit running)
      fun i => (guards i).engineOn alarm fuel running where
  read atoms k hk := by
    have hparse := (Agrees.compatible least limit running).parse atoms hk
    simp only [Guard.engineOn, Guard.read, bind_assoc]
    exact hparse.checked alarm hguards
  force {e} _ := hrun (.force e)
  execute code keep := hrun (.execute code keep)
  call {p inputs} _ := (hrun (.invoke p inputs)).called
  rounds _ := Nat.le_refl fuel

section
variable {eng : Bool → List Activation → Engine}
variable (hengines : ∀ running, Engines least (fun _ => True) (Agrees least limit running)
  fun i => eng i running)
include hengines

/-- Inputs are evaluated and primitives run after the procedure has been entered; defaults are
evaluated and bodies run after it has been given a frame. -/
theorem Agrees.invoke (running : List Activation) (p : Procedure) (inputs : List Expr) :
    Agrees least limit (running ++ [⟨p.name, false⟩]) _
      fun i => (guards i).invoke alarm (eng i) running p inputs := by
  have hcalled := Agrees.compatible least limit (running ++ [⟨p.name, false⟩])
  have hinside := Agrees.compatible least limit (running ++ [⟨p.name, true⟩])
  have heng := hengines (running ++ [⟨p.name, false⟩])
  have heng' := hengines (running ++ [⟨p.name, true⟩])
  have hinputs : ∀ e ∈ inputs, True := fun _ _ => trivial
  have hmissing : ∀ n count, Supplied (Agrees least limit (running ++ [⟨p.name, false⟩])) n count :=
    fun _ _ => Or.inr fun _ _ => .fault (Fault.measured_of_kind (by simp [Cause.kind]))
  unfold Guard.invoke
  cases p.body with
  | deferred q =>
    have happly := hcalled.applyDeferred heng p.name q (fun _ => Agrees.cutsOff) inputs hinputs
      (hmissing _ _)
    exact happly.checked alarm hguards
  | definer => exact (hcalled.done none).checked alarm hguards
  | primitive q =>
    refine hcalled.forceInputs heng p.name inputs hinputs fun args _ => ?_
    have happly := hcalled.applyPrimitive heng p.name q (fun _ => Agrees.cutsOff) args
      (hmissing _ _)
    exact happly.checked alarm hguards
  | host act =>
    refine hcalled.forceInputs heng p.name inputs hinputs fun args _ => ?_
    exact (Agrees.perform heng.execute (act args) (by simp)).checked alarm hguards
  | defined d =>
    refine hcalled.forceInputs heng p.name inputs hinputs fun args _ => Agrees.framed ?_
    have hbody := (hinside.perform heng' d.body).checked alarm hguards
    exact (hinside.bind (hinside.bindAll heng' d args) fun _ => hbody).checked alarm hguards

theorem Agrees.step (running : List Activation) (job : Job) :
    Agrees least limit (job.activations running) _
      fun i => (guards i).step alarm (eng i) running job := by
  have hcompatible := Agrees.compatible least limit running
  have heng := hengines running
  cases job with
  | execute code keep => exact hcompatible.instructions heng.toEvaluators keep code.length none code
  | force e =>
    exact hcompatible.force (fun e' _ => heng.force trivial) fun p inputs _ => heng.call trivial
  | invoke p inputs => exact Agrees.invoke alarm hguards hengines running p inputs

end

/-- Guards that find nothing wrong as long as the state is what it should be never do. -/
theorem Agrees.interpret (least : Bool) (fuel : Nat) :
    ∀ (running : List Activation) (job : Job), Agrees least limit (job.activations running) _
      fun i => (guards i).interpret alarm fuel running job := by
  induction fuel with
  | zero =>
    intro running job w _
    exact Or.inl rfl
  | succ fuel ih =>
    intro running job
    simp only [Guard.interpret_succ]
    exact Agrees.step alarm hguards (fun running => Agrees.engines alarm hguards (ih running))
      running job

end

end Run

/-- The guard that wants the state to be what it should be. -/
def Guard.fitting (limit : Nat) : Guard :=
  fun running w => decide (w.Fits limit running)

/-- An alarm is heard: here a run starts with a frame too many, and the guard finds out as soon as
the program is read. -/
example (alarm : Fault) : ∃ w', (Guard.fitting 1000).interpret alarm 2 []
    (.execute [.word "f"] false) { frames := Frames.push {} } = .exit (.fault alarm) w' :=
  ⟨_, rfl⟩

/-- A host does not go on after an alarm: `H` would give nothing however `F` ends, but here is a
guard that wants no two procedures to be running. -/
example : (Guard.interpret (fun running _ => running.length ≤ 1)
    { cause := .aborted, stack := ["alarm"] } 8 [] (.execute [.word "h"] false)
    { procedures := ⟨[
      ("f", ⟨"F", .defined ⟨[], [], none, 0, []⟩, .fixed 0⟩),
      ("h", ⟨"H", .host fun _ => .attempt [.word "f"] false fun _ => .finish none, .fixed 0⟩)]⟩
    }).fault?.map (·.stack) = some ["alarm"] := by decide +kernel

/-- If the state fits when a job begins, it fits at every moment, and the guard changes nothing. -/
theorem Guard.interpret_fitting {limit : Nat} {job : Job}
    (hw : w.Fits limit (job.activations running)) (alarm : Fault) (fuel : Nat) :
    (fitting limit).interpret alarm fuel running job w = TurtleLogo.interpret fuel job w ∧
      (TurtleLogo.interpret fuel job w).Kept limit (job.activations running) := by
  -- The interpreter itself is the run under a guard that is always content.
  have hguards : ∀ i running w, World.Fits limit running w →
      Run.pair (fun _ _ => true) (fitting limit) i running w = true := by
    intro i running w hfits
    cases i with
    | false => rfl
    | true => exact decide_eq_true hfits
  obtain ⟨o, hall, hkept⟩ := Run.Agrees.both
    (fun least => Run.Agrees.interpret alarm hguards least fuel running job) hw
  have hplain : TurtleLogo.interpret fuel job w = o := by
    rw [← interpret_content alarm fuel running job]
    exact hall false
  rw [hplain]
  exact ⟨hall true, hkept⟩

/-- A program that starts with nothing running and one frame is within bounds at every moment. No
guard that watches it for this ever raises an alarm: wherever a primitive starts, the defaults or
the body of a definition are run or something is read, no more procedures are running than the limit
allows, and there is one frame more than definitions whose defaults or bodies are running, so at
least one and at most one more than there are running procedures. `TO`, which is run in the course
of reading, is refused where it would be one call too many. If the program ends because calls were
nested too deep, the fault records as many procedures as the limit allows, unless it is of a host's
own making. -/
theorem within_bounds_at_every_moment {w : World} (hcalls : w.calls = #[])
    (hframes : w.frames.depth = 1) (fuel : Nat) (code : List Atom) (keep : Bool) :
    (∀ alarm, (Guard.fitting w.limit).interpret alarm fuel [] (.execute code keep) w
      = interpret fuel (.execute code keep) w) ∧
    (∀ running v, Guard.fitting w.limit running v = true →
      v.calls.toList = running.map (·.name) ∧ v.calls.size ≤ w.limit ∧
      v.frames.depth = 1 + running.countP (·.inFrame) ∧
      1 ≤ v.frames.depth ∧ v.frames.depth ≤ v.calls.size + 1) ∧
    (∀ definer ctx s, ctx.limit ≤ ctx.calls.size → ∃ f, Parse.define definer ctx s = .fail f s) ∧
    ∀ f w', interpret fuel (.execute code keep) w = .exit (.fault f) w' →
      f.cause.kind = .depthExceeded → (∀ message, f.cause ≠ .host .depthExceeded message) →
        f.stack.length = w.limit := by
  have hfits : w.Fits w.limit ((Job.execute code keep).activations []) := by
    refine ⟨?_, ?_, ?_, rfl⟩
    · simp [hcalls, Job.activations]
    · simp [hcalls]
    · simpa [Job.activations] using hframes
  have hguarded := fun alarm => Guard.interpret_fitting hfits alarm fuel
  refine ⟨fun alarm => (hguarded alarm).1, fun running v hguard => ?_,
    fun definer ctx s hdeep => ?_, fun f w' hfails => ?_⟩
  · have hv : v.Fits w.limit running := of_decide_eq_true hguard
    exact ⟨hv.calls, hv.bounded, hv.frames, hv.frames_bounds⟩
  · cases habort : ctx.aborted with
    | true => exact ⟨_, Parse.define_aborted habort⟩
    | false => exact ⟨_, Parse.define_tooDeep habort hdeep⟩
  · exact (hguarded { cause := .aborted }).2.measured f w' hfails

/-- `F` calls itself, and is stopped at the second call, with one name recorded. -/
theorem within_bounds_at_every_moment_recursive : ∃ f w', f.cause = .tooDeep 1 ∧
    (∀ alarm, (Guard.fitting 1).interpret alarm 8 [] (.execute [.word "f"] false)
        { procedures := ⟨[("f", ⟨"F", .defined ⟨[], [], none, 0, [.word "f"]⟩, .fixed 0⟩)]⟩
          limit := 1 } = .exit (.fault f) w') ∧
    f.stack.length = 1 := by
  have hfails : interpret 8 (.execute [.word "f"] false)
      { procedures := ⟨[("f", ⟨"F", .defined ⟨[], [], none, 0, [.word "f"]⟩, .fixed 0⟩)]⟩
        limit := 1 } = .exit (.fault { cause := .tooDeep 1, stack := ["F"] }) _ := rfl
  obtain ⟨hguarded, -, -, hmeasured⟩ := within_bounds_at_every_moment (w := {
      procedures := ⟨[("f", ⟨"F", .defined ⟨[], [], none, 0, [.word "f"]⟩, .fixed 0⟩)]⟩
      limit := 1 }) rfl rfl 8 [.word "f"] false
  exact ⟨_, _, rfl, fun alarm => (hguarded alarm).trans hfails, hmeasured _ _ hfails rfl (by simp)⟩

/-- A host may say that calls were nested too deep where they were not: `H` does, and one name is
recorded under a limit of five. -/
theorem made_up_depth_not_measured : ∃ (w : World) (code : List Atom) (keep : Bool) (fuel : Nat)
    (f : Fault) (w' : World), w.calls = #[] ∧ w.frames.depth = 1 ∧
      interpret fuel (.execute code keep) w = .exit (.fault f) w' ∧
      f.cause.kind = .depthExceeded ∧ f.stack.length ≠ w.limit :=
  ⟨{ procedures := ⟨[("h", ⟨"H", .host fun _ => .fail .depthExceeded "deep", .fixed 0⟩)]⟩
     limit := 5 },
    [.word "h"], false, 4, _, _, rfl, rfl, rfl, rfl, by decide⟩

end TurtleLogo
