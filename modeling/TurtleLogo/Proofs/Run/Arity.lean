import TurtleLogo.Proofs.Run.Interpret

set_option autoImplicit false

/-! # No input is missing

Whatever programs a new interpreter has run, its registry is proper: no call that it reads has a
number of inputs that its procedure does not accept, and no primitive ever looks at an input that is
not there. Expressions may be evaluated long after they were read and after their procedures were
defined anew; the number of inputs of a call is a fact about the expression and the procedure it was
read with (`Expr.Accepted`), which no later definition changes. -/

namespace TurtleLogo

/-- All calls in the expression are of proper procedures, with numbers of inputs that these
accept. -/
def Expr.Accepted (e : Expr) : Prop :=
  e.Calls fun p n => p.Proper ∧ p.arity.accepts n = true

/-! ## Runs that keep the registry proper -/

/-- If the run ends, then in a proper registry, and not for want of an input. -/
def Outcome.Supplied {α : Type} : Outcome α → Prop
  | .done _ w => w.procedures.Proper
  | .exit (.fault f) w => w.procedures.Proper ∧ f.cause.isInputMissing = false
  | .exit _ w => w.procedures.Proper
  | .exhausted => True

/-- An exit of one run is as good as the same exit of another that leaves the same registry. -/
theorem Outcome.Supplied.exit_congr {α β : Type} {e : Exit} {w w' : World}
    (h : (Outcome.exit e w : Outcome α).Supplied) (hprocedures : w'.procedures = w.procedures) :
    (Outcome.exit e w' : Outcome β).Supplied := by
  cases e with
  | fault f => exact ⟨hprocedures ▸ h.1, h.2⟩
  | output a => exact (hprocedures ▸ h : w'.procedures.Proper)
  | stop => exact (hprocedures ▸ h : w'.procedures.Proper)

namespace Run

/-- In a proper registry the run lacks no input. -/
def Supplies {α : Type} (m : Run α) : Prop :=
  ∀ w, w.procedures.Proper → (m w).Supplied

theorem Supplies.exit {α : Type} {e : Exit}
    (h : ∀ f, e = .fault f → f.cause.isInputMissing = false) :
    Supplies (Run.exit e : Run α) := by
  intro w hw
  cases e with
  | fault f => exact ⟨hw, h f rfl⟩
  | output a => exact hw
  | stop => exact hw

theorem Supplies.attempt {α β : Type} {m : Run α} {f : Except Exit α → Run β} (hm : Supplies m)
    (hok : ∀ a, Supplies (f (.ok a)))
    (herror : ∀ e, (∀ f, e = .fault f → f.cause.isInputMissing = false) → Supplies (f (.error e))) :
    Supplies (Run.attempt m f) := by
  intro w hw
  have hs := hm w hw
  cases hr : m w with
  | done a w₁ =>
    rw [hr] at hs
    rw [attempt_done hr]
    exact hok a w₁ hs
  | exit e w₁ =>
    rw [hr] at hs
    rw [attempt_exit hr]
    cases e with
    | fault g => exact herror _ (by rintro f ⟨⟩; exact hs.2) w₁ hs.1
    | output a => exact herror _ (by simp) w₁ hs
    | stop => exact herror _ (by simp) w₁ hs
  | exhausted =>
    rw [attempt_exhausted hr]
    exact trivial

theorem Supplies.bind {α β : Type} {m : Run α} {f : α → Run β} (hm : Supplies m)
    (hf : ∀ a, Supplies (f a)) : Supplies (m >>= f) := by
  rw [bind_eq_attempt]
  exact hm.attempt hf fun e he => .exit he

theorem Supplies.heedAbort : Supplies Run.heedAbort := by
  intro w hw
  cases habort : w.aborted with
  | true => rw [heedAbort_stop habort]; exact ⟨hw, rfl⟩
  | false => rw [heedAbort_go habort]; exact hw

theorem Supplies.parse {α : Type} (atoms : List Atom) {k : Expr × List Atom → Run α}
    (hk : ∀ e rest, e.Accepted → Supplies (k (e, rest))) : Supplies (Engine.parse atoms >>= k) := by
  intro w hw
  rcases Engine.parse_cases atoms w with ⟨e, s, hread, hparse⟩ | ⟨f, s, hread, hparse⟩
  · obtain ⟨hregistry, he⟩ := Registry.Proper.supports.parseExpr_ok hw hread
    rw [bind_done hparse]
    exact hk e s.atoms he _ hregistry
  · rw [bind_exit hparse]
    exact Registry.Proper.supports.parseExpr_fail hw hread

theorem Supplies.counted (i : Nat) {m : Run Unit} (hm : Supplies m) :
    Supplies (Act.counted i m) := by
  intro w hw
  have hs := hm (Act.withRepcount i w) hw
  rw [Act.counted_apply]
  cases hr : m (Act.withRepcount i w) with
  | done a w₁ => rw [hr] at hs; exact hs
  | exit e w₁ => rw [hr] at hs; exact hs.exit_congr rfl
  | exhausted => exact trivial

theorem Supplies.leaving {m : Run (Option Atom)} (hm : Supplies m) : Supplies (leaving m) := by
  intro w hw
  have hs := hm w hw
  unfold TurtleLogo.leaving
  cases hr : m w with
  | done a w₁ => rw [hr] at hs; exact hs
  | exhausted => exact trivial
  | exit e w₁ =>
    rw [hr] at hs
    cases e with
    | output a => exact hs
    | stop => exact hs
    | fault f =>
      -- Recording the running procedures does not change the cause.
      refine ⟨hs.1, ?_⟩
      unfold Fault.record
      split
      · exact hs.2
      · exact hs.2

theorem Supplies.enter (name : String) : Supplies (enter name) := by
  intro w hw
  unfold TurtleLogo.enter
  split
  · exact ⟨hw, rfl⟩
  · split
    · exact ⟨hw, rfl⟩
    · exact hw

theorem Supplies.framed {m : Run Unit} (hm : Supplies m) : Supplies (framed m) := by
  intro w hw
  have hs := hm { w with frames := w.frames.push } hw
  unfold TurtleLogo.framed
  cases hr : m { w with frames := w.frames.push } with
  | done a w₁ => rw [hr] at hs; exact hs
  | exhausted => exact trivial
  | exit e w₁ =>
    rw [hr] at hs
    cases e with
    | fault f => exact hs
    | output a => exact hs
    | stop => exact hs

theorem Supplies.cutsOff : CutsOff () fun _ (m : Unit → Run _) => Supplies (m ()) := by
  intro α m hleast w _
  rw [hleast w]
  exact trivial

/-- All that programs are made of keeps the registry proper and lacks no input, as long as the
expressions that are evaluated are accepted. -/
theorem Supplies.compatible :
    Compatible () Expr.Accepted fun _ m => Supplies (m ()) where
  done _ _ hw := hw
  bind hm hf := hm.bind hf
  fail _ hcause _ hw := ⟨hw, Cause.isInputMissing_of_unreserved hcause⟩
  stop _ hw := hw
  output _ _ hw := hw
  heedAbort := Supplies.heedAbort
  look _ _ _ hk w hw := hk _ w hw
  onTurtle _ _ hw := hw
  assign _ _ _ hw := hw
  bindLocal _ _ _ hw := hw
  declareLocal _ _ hw := hw
  setTest _ _ hw := hw
  write _ _ hw := hw
  setAborted _ _ hw := hw
  counted i _ hm := hm.counted i
  parse atoms _ hk := Supplies.parse atoms hk
  negate | .negate h => h
  binary | .binary _ hleft hright => ⟨hleft, hright⟩
  inputs | .call _ hinputs => hinputs
  supplied
    | .call h _ => by
      have hleast := (Arity.accepts_iff.mp h.2).1
      exact Or.inl (h.1.needs.trans hleast)
  loops _ _ := Supplies.cutsOff

/-- A host makes up no fault about a missing input, and it is handed none. -/
theorem Supplies.attempts :
    Compatible.Attempts (fun e => ∀ f, e = .fault f → f.cause.isInputMissing = false)
      fun _ (m : Unit → Run _) => Supplies (m ()) where
  made _ _ _ := by rintro f ⟨⟩; rfl
  exit := Supplies.exit
  attempt hm hok herror := hm.attempt hok herror

theorem Supplies.uniform :
    Compatible.Uniform () Expr.Accepted fun _ (m : Unit → Run _) => Supplies (m ()) where
  cutsOff := Supplies.cutsOff
  frames hm := hm.framed
  hosts := Supplies.compatible.respectsHosts Supplies.attempts
  calls name _ hm := (Supplies.enter name).bind fun _ => hm.leaving

/-- Nothing that an engine does in a proper registry lacks an input. -/
theorem Supplies.engineOn (fuel : Nat) :
    Engines () Expr.Accepted (fun _ m => Supplies (m ())) fun _ => TurtleLogo.engineOn fuel :=
  Supplies.compatible.engineOn Supplies.uniform fuel

end Run

/-! ## Parts of inputs -/

theorem Input.list_done {me : String} {a : Atom} {items : List Atom} {w w' : World}
    (h : Input.list me a w = .done items w') : a = .list items := by
  have hitems := (Run.require_eq_done.mp h).1
  cases a with
  | list items' => exact congrArg Atom.list (Option.some.inj hitems)
  | number x => simp [Atom.list?] at hitems
  | word v => simp [Atom.list?] at hitems

/-- A point is taken from a list of two. -/
theorem Input.point_done {me : String} {a : Atom} {p : Point} {w w' : World}
    (h : Input.point me a w = .done p w') :
    ∃ x y, a = .list [x, y] ∧ x.number? = some p.x ∧ y.number? = some p.y := by
  obtain ⟨items, w₁, hlist, hitems⟩ := Run.bind_eq_done.mp h
  split at hitems
  · next x y =>
    obtain ⟨m, w₂, hx, hrest⟩ := Run.bind_eq_done.mp hitems
    obtain ⟨n, w₃, hy, hdone⟩ := Run.bind_eq_done.mp hrest
    obtain ⟨rfl, -⟩ := Outcome.done.inj hdone
    exact ⟨x, y, Input.list_done hlist, (Run.require_eq_done.mp hx).1,
      (Run.require_eq_done.mp hy).1⟩
  · cases hitems

/-- The header of a loop is taken apart after its first word. -/
theorem Act.loopHeader_done {me name : String} {header : Atom} {items bounds : List Atom}
    {w w' : World} (h : Act.loopHeader me header items w = .done (name, bounds) w') :
    ∃ v, items = .word v :: bounds ∧ name = Act.bareName v := by
  unfold Act.loopHeader at h
  split at h
  · next v bounds' =>
    have hpair := (Outcome.done.inj h).1
    simp only [Prod.mk.injEq] at hpair
    obtain ⟨rfl, rfl⟩ := hpair
    exact ⟨v, rfl, rfl⟩
  · cases h

/-- A clause is taken apart after its head. -/
theorem Act.clause_done {me : String} {a head : Atom} {code : List Atom} {w w' : World}
    (h : Act.clause me a w = .done (head, code) w') : a = .list (head :: code) := by
  obtain ⟨items, w₁, hlist, hitems⟩ := Run.bind_eq_done.mp h
  cases items with
  | nil => cases hitems
  | cons first rest =>
    have hpair := (Outcome.done.inj hitems).1
    simp only [Prod.mk.injEq] at hpair
    obtain ⟨rfl, rfl⟩ := hpair
    exact Input.list_done hlist

/-! ## Interpreters that run programs -/

/-- The state in which a run has ended. -/
def Outcome.world? {α : Type} : Outcome α → Option World
  | .done _ w => some w
  | .exit _ w => some w
  | .exhausted => none

/-- The states that a new interpreter can come to. Between programs the host may do what it likes,
except that it leaves the registry alone. -/
inductive Reachable : World → Prop where
  | fresh : Reachable {}
  | execute {w w' : World} (fuel : Nat) (code : List Atom) (keep : Bool) : Reachable w →
    (interpret fuel (.execute code keep) w).world? = some w' → Reachable w'
  | evaluate {w w' : World} (fuel : Nat) (atoms : List Atom) : Reachable w →
    ((engineOn fuel).evaluate atoms w).world? = some w' → Reachable w'
  | host {w w' : World} : Reachable w → w'.procedures = w.procedures → Reachable w'

theorem Outcome.Supplied.proper {α : Type} {o : Outcome α} (h : o.Supplied) {w : World}
    (hw : o.world? = some w) : w.procedures.Proper := by
  cases o with
  | done a w' => obtain rfl := Option.some.inj hw; exact h
  | exhausted => cases hw
  | exit e w' =>
    obtain rfl := Option.some.inj hw
    cases e with
    | fault f => exact h.1
    | output a => exact h
    | stop => exact h

theorem Reachable.proper {w : World} (h : Reachable w) : w.procedures.Proper := by
  induction h with
  | fresh => exact Registry.standard_proper
  | execute fuel code keep _ hends ih =>
    exact ((Run.Supplies.engineOn fuel).execute code keep _ ih).proper hends
  | evaluate fuel atoms _ hends ih =>
    have hevaluate := Run.Supplies.compatible.evaluate (Run.Supplies.engineOn fuel) atoms
    exact (hevaluate _ ih).proper hends
  | host _ hprocedures ih => exact hprocedures ▸ ih

/-- What is read in such a state makes calls with numbers of inputs that their procedures accept. -/
theorem Reachable.accepted {w : World} (h : Reachable w) {ctx : Parse.Context} {atoms : List Atom}
    {e : Expr} {s : Parse.State} (hread : parseExpr ctx ⟨atoms, w.procedures⟩ = .ok e s) :
    e.Accepted :=
  (Registry.Proper.supports.parseExpr_ok h.proper hread).2

/-- No run in a proper registry ends for want of an input. -/
theorem Outcome.Supplied.cause_ne {α : Type} {f : Fault} {w : World}
    (h : (Outcome.exit (.fault f) w : Outcome α).Supplied) (me : String) :
    f.cause ≠ .inputMissing me := by
  intro hcause
  have hmissing := h.2
  rw [hcause] at hmissing
  cases hmissing

/-- In every state that an interpreter can come to,

* every procedure accepts the number of inputs that a call without parentheses gives it, and every
  definition has a name that reading takes for a call;
* every call in an expression that is read has a number of inputs that its procedure accepts;
* no run ends because a primitive looks at an input that is not there, whether it executes
  instructions or evaluates an expression, which may have been read in any other such state;
* points, loop headers, clauses and optional inputs are taken apart only where the parts are
  there. -/
theorem reachable_inputs_supplied {w : World} (h : Reachable w) :
    (∀ name p, w.procedures.get? name = some p →
      p.arity.least ≤ p.arity.natural ∧
      (∀ most, p.arity.most = some most → p.arity.natural ≤ most) ∧
      ∀ d, p.body = .defined d → ∃ given, foldName name = foldName given ∧ p = d.entry given ∧
        Definition.isName given = true ∧
        ∀ expr n, Parse.wordExpr expr n given = Parse.naturalCall expr given) ∧
    (∀ ctx atoms e s, parseExpr ctx ⟨atoms, w.procedures⟩ = .ok e s →
      e.Calls fun p n => p.arity.accepts n = true) ∧
    (∀ fuel code keep f w', (engineOn fuel).execute code keep w = .exit (.fault f) w' →
      ∀ me, f.cause ≠ .inputMissing me) ∧
    (∀ w₀ ctx atoms e s fuel f w', Reachable w₀ → parseExpr ctx ⟨atoms, w₀.procedures⟩ = .ok e s →
      (engineOn fuel).force e w = .exit (.fault f) w' → ∀ me, f.cause ≠ .inputMissing me) ∧
    (∀ me a p w₁ w₂, Input.point me a w₁ = .done p w₂ →
      ∃ x y, a = .list [x, y] ∧ x.number? = some p.x ∧ y.number? = some p.y) ∧
    (∀ me header items name bounds w₁ w₂,
      Act.loopHeader me header items w₁ = .done (name, bounds) w₂ →
        ∃ v, items = .word v :: bounds ∧ name = Act.bareName v) ∧
    (∀ me a head code w₁ w₂, Act.clause me a w₁ = .done (head, code) w₂ →
      a = .list (head :: code)) ∧
    ∀ a name default, Definition.optional? a = some (name, default) →
      ∃ head, a = .list (head :: default) ∧ Definition.parameter? head = some name ∧
        default ≠ [] := by
  have hproper := h.proper
  refine ⟨?_, ?_, ?_, ?_, fun _ _ _ _ _ => Input.point_done,
    fun _ _ _ _ _ _ _ => Act.loopHeader_done, fun _ _ _ _ _ _ => Act.clause_done,
    fun _ _ _ => Definition.optional?_eq_some⟩
  · intro name p hget
    obtain ⟨hleast, hmost⟩ := Arity.accepts_iff.mp (hproper.procedure hget).natural
    refine ⟨hleast, hmost, fun d hbody => ?_⟩
    obtain ⟨given, hfold, hname, hentry⟩ := hproper.definition hget hbody
    exact ⟨given, hfold, hentry, hname, Parse.wordExpr_of_isName hname⟩
  · intro ctx atoms e s hread
    exact (h.accepted hread).mono fun p n hp => hp.2
  · intro fuel code keep f w' hrun
    have hsupplied : ((engineOn fuel).execute code keep w).Supplied :=
      (Run.Supplies.engineOn fuel).execute code keep w hproper
    rw [hrun] at hsupplied
    exact hsupplied.cause_ne
  · intro w₀ ctx atoms e s fuel f w' h₀ hread hrun
    have hsupplied : ((engineOn fuel).force e w).Supplied :=
      (Run.Supplies.engineOn fuel).force (h₀.accepted hread) w hproper
    rw [hrun] at hsupplied
    exact hsupplied.cause_ne

/-- The state after `to f :x [:y 5] 2 end`: a call of `f` takes two inputs, of which the second may
be left out in parentheses, and whatever is executed there, no body asks for an input in vain. -/
theorem reachable_inputs_supplied_after_definition :
    ∃ w p, Reachable w ∧ w.procedures.get? "f" = some p ∧
      (p.arity.least = 1 ∧ p.arity.natural = 2 ∧ p.arity.least ≤ p.arity.natural) ∧
      ∀ fuel code keep f w', (engineOn fuel).execute code keep w = .exit (.fault f) w' →
        ∀ me, f.cause ≠ .inputMissing me := by
  have hruns : ((interpret 4 (.execute [.word "to", .word "f", .word ":x",
      .list [.word ":y", .word "5"], .word "2", .word "end"] false) {}).world?.bind fun w =>
        (w.procedures.get? "f").map fun p => (p.arity.least, p.arity.natural))
      = some (1, 2) := by decide +kernel
  obtain ⟨w, hw, hentry⟩ := Option.bind_eq_some_iff.mp hruns
  obtain ⟨p, hget, harity⟩ := Option.map_eq_some_iff.mp hentry
  obtain ⟨hleast, hnatural⟩ := Prod.mk.inj harity
  have hreachable : Reachable w := .execute 4 _ false .fresh hw
  obtain ⟨hprocedures, -, hexecute, -⟩ := reachable_inputs_supplied hreachable
  exact ⟨w, p, hreachable, hget, ⟨hleast, hnatural, (hprocedures "f" p hget).1⟩, hexecute⟩

end TurtleLogo
