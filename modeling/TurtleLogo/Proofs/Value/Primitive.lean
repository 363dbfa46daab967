import TurtleLogo.Proofs.Value.Rules

set_option autoImplicit false

/-! # The values of primitives

A primitive on allowed inputs gives an allowed value, if it gives one, and keeps the discipline on
the way: `Discipline.applyPrimitive` for the primitives that take values, and
`Discipline.applyDeferred` for those that take expressions. -/

namespace TurtleLogo.Run

variable {I : World → Prop} {V : Atom → Prop} {E : Expr → Prop} {eng : Engine}

namespace Discipline

variable {args : List Atom}

/-! ## The turtle -/

theorem drive (h : Discipline I V E) (f : Turtle → Turtle) :
    Gives I V (Allowed V) (Act.drive f) :=
  (h.onTurtle f).bind fun _ _ => .done .none

theorem report {f : Turtle → Atom} (hf : ∀ t, V (f t)) : Gives I V (Allowed V) (Act.report f) :=
  Gives.world.bind fun w _ => .done (.some (hf w.turtle))

theorem driveBy (h : Discipline I V E) (hargs : ∀ a ∈ args, V a) (me : String)
    (f : Float → Turtle → Turtle) : Gives I V (Allowed V) (Act.driveBy me args f) :=
  (Gives.numberAt hargs me 0).bind fun n _ => h.drive (f n)

theorem driveByTwo (h : Discipline I V E) (hargs : ∀ a ∈ args, V a) (me : String)
    (f : Float → Float → Turtle → Turtle) : Gives I V (Allowed V) (Act.driveByTwo me args f) :=
  (Gives.numberAt hargs me 0).bind fun m _ => (Gives.numberAt hargs me 1).bind fun n _ =>
    h.drive (f m n)

theorem setPosition (h : Discipline I V E) (hargs : ∀ a ∈ args, V a) (me : String) :
    Gives I V (Allowed V) (Act.setPosition me args) :=
  (h.pointAt hargs me 0).bind fun p _ => h.drive (·.moveTo p)

theorem towards (h : Discipline I V E) (hargs : ∀ a ∈ args, V a) (me : String) :
    Gives I V (Allowed V) (Act.towards me args) :=
  (h.pointAt hargs me 0).bind fun _ _ => report fun _ => h.number _

theorem setColor (h : Discipline I V E) (hargs : ∀ a ∈ args, V a) (me : String) :
    Gives I V (Allowed V) (Act.setColor me args) :=
  (Gives.nth hargs me 0).bind fun color _ => h.drive (·.setColor color)

/-! ## Variables and lines -/

theorem make (h : Discipline I V E) (hargs : ∀ a ∈ args, V a) (me : String) :
    Gives I V (Allowed V) (Act.make me args) := by
  refine (Gives.wordAt hargs me 0).bind fun name _ => (Gives.nth hargs me 1).bind fun a ha => ?_
  exact (Gives.modify fun _ hw => h.assign name hw ha).bind fun _ _ => .done .none

theorem declareAndMake (h : Discipline I V E) (hargs : ∀ a ∈ args, V a) (me : String) :
    Gives I V (Allowed V) (Act.declareAndMake me args) := by
  refine (Gives.wordAt hargs me 0).bind fun name _ => ?_
  refine (Gives.modify fun _ hw => h.declareLocal name hw).bind fun _ _ => ?_
  refine (Gives.nth hargs me 1).bind fun a ha => ?_
  exact (Gives.modify fun _ hw => h.assign name hw ha).bind fun _ _ => .done .none

theorem declareAll (h : Discipline I V E) (me : String) (atoms : List Atom) :
    Gives I V (fun _ => True) (Act.declareAll me atoms) := by
  induction atoms with
  | nil => exact .done trivial
  | cons a rest ih =>
    refine (Gives.word a me).bind fun name _ => ?_
    exact (Gives.modify fun _ hw => h.declareLocal name hw).bind fun _ _ => ih

theorem declare (h : Discipline I V E) (me : String) (args : List Atom) :
    Gives I V (Allowed V) (Act.declare me args) :=
  (h.declareAll me _).bind fun _ _ => .done .none

theorem thing (h : Discipline I V E) (hargs : ∀ a ∈ args, V a) (me : String) :
    Gives I V (Allowed V) (Act.thing me args) := by
  refine (Gives.wordAt hargs me 0).bind fun name _ => Gives.world.bind fun w hw => ?_
  have hvalue : ∀ a ∈ w.value? name, V a := fun a ha => h.value hw ha
  exact (Gives.require hvalue).bind fun a ha => .done (.some ha)

theorem writeLine (h : Discipline I V E) (hargs : ∀ a ∈ args, V a) {text : Atom → String}
    (htext : text = Atom.display ∨ text = Atom.plain) :
    Gives I V (Allowed V) (Act.writeLine (args.map text)) :=
  (Gives.modify fun _ hw => h.write hw hargs htext).bind fun _ _ => .done .none

/-! ## Choices -/

theorem ifElse (h : Discipline I V E) (he : Obeys I V E eng) (hargs : ∀ a ∈ args, V a)
    (me : String) : Gives I V (Allowed V) (Act.ifElse eng me args) := by
  unfold Act.ifElse
  split
  · next test yes more =>
    obtain ⟨htest, hbranches⟩ := List.forall_mem_cons.mp hargs
    refine (h.truthFor he htest me).bind fun b _ => ?_
    dsimp only
    split
    · next a ha =>
      -- Whichever branch is taken, it is one of the inputs.
      have hmem : a ∈ yes :: more := by
        split at ha
        · simp_all
        · exact List.mem_cons_of_mem yes (List.mem_of_mem_head? ha)
      exact (h.items (hbranches a hmem) me).bind fun _ hcode => he.execute true hcode
    · exact .done .none
  · exact .fail _

theorem test (h : Discipline I V E) (he : Obeys I V E eng) (hargs : ∀ a ∈ args, V a) (me : String) :
    Gives I V (Allowed V) (Act.test eng me args) := by
  refine (Gives.nth hargs me 0).bind fun a ha => (h.truthFor he ha me).bind fun b _ => ?_
  exact (Gives.modify fun _ hw => h.setTest (some b) hw).bind fun _ _ => .done .none

theorem ifTest (h : Discipline I V E) (he : Obeys I V E eng) (hargs : ∀ a ∈ args, V a)
    (me : String) (wanted : Bool) : Gives I V (Allowed V) (Act.ifTest eng me wanted args) := by
  refine (Gives.nth hargs me 0).bind fun a ha => Gives.world.bind fun w _ => ?_
  have hflag : Gives I V (fun _ => True) (Run.require (.testMissing me) w.frames.innermost.test) :=
    .require fun _ _ => trivial
  refine hflag.bind fun b _ => (h.items ha me).bind fun code hcode => ?_
  split
  · exact he.execute true hcode
  · exact .done .none

theorem clause (h : Discipline I V E) {a : Atom} (ha : V a) (me : String) :
    Gives I V (fun x => V x.1 ∧ ∀ b ∈ x.2, V b) (Act.clause me a) := by
  refine (h.items ha me).bind fun items hitems => ?_
  cases items with
  | nil => exact .fail _
  | cons head code => exact .done (List.forall_mem_cons.mp hitems)

theorem caseFrom (h : Discipline I V E) (he : Obeys I V E eng) (me : String) (key : Atom)
    {clauses : List Atom} (hclauses : ∀ a ∈ clauses, V a) :
    Gives I V (Allowed V) (Act.caseFrom eng me key clauses) := by
  induction clauses with
  | nil => exact .done .none
  | cons c rest ih =>
    obtain ⟨hc, hrest⟩ := List.forall_mem_cons.mp hclauses
    refine (h.clause hc me).bind fun x hx => ?_
    dsimp only
    split
    · exact he.execute true hx.2
    · exact ih hrest

theorem caseOf (h : Discipline I V E) (he : Obeys I V E eng) (hargs : ∀ a ∈ args, V a)
    (me : String) : Gives I V (Allowed V) (Act.caseOf eng me args) :=
  (h.listAt hargs me 1).bind fun _ hclauses => (Gives.nth hargs me 0).bind fun key _ =>
    h.caseFrom he me key hclauses

theorem testHolds (h : Discipline I V E) (he : Obeys I V E eng) {a : Atom} (ha : V a) :
    Gives I V (fun _ => True) (Act.testHolds eng a) := by
  have hvalue : Gives I V V (Act.testValue eng a) := by
    have halone : Gives I V V (eng.evaluate [a] >>= fun x => Run.require .clauseWithoutValue x.1) :=
      (he.evaluate (by simpa using ha)).bind fun _ hx => .require hx.1
    cases a with
    | list items => exact he.demandList (h.list.mp ha) "COND"
    | number x => exact halone
    | word w => exact halone
  unfold Act.testHolds
  split
  · exact .done trivial
  · exact hvalue.bind fun _ hv => h.truthFor he hv "COND"

theorem condFrom (h : Discipline I V E) (he : Obeys I V E eng) (me : String)
    {clauses : List Atom} (hclauses : ∀ a ∈ clauses, V a) :
    Gives I V (Allowed V) (Act.condFrom eng me clauses) := by
  induction clauses with
  | nil => exact .done .none
  | cons c rest ih =>
    obtain ⟨hc, hrest⟩ := List.forall_mem_cons.mp hclauses
    refine (h.clause hc me).bind fun x hx => (h.testHolds he hx.1).bind fun b _ => ?_
    split
    · exact he.execute true hx.2
    · exact ih hrest

theorem condClauses (h : Discipline I V E) (he : Obeys I V E eng) (hargs : ∀ a ∈ args, V a)
    (me : String) : Gives I V (Allowed V) (Act.condClauses eng me args) :=
  (h.listAt hargs me 0).bind fun _ hclauses => h.condFrom he me hclauses

theorem negation (h : Discipline I V E) (hargs : ∀ a ∈ args, V a) (me : String) :
    Gives I V (Allowed V) (Act.negation me args) :=
  (Gives.nth hargs me 0).bind fun a _ => (Gives.truth a me).bind fun _ _ =>
    .done (.some (h.ofBool _))

theorem parity (me : String) (args : List Atom) :
    ∀ odd, Gives I V (fun _ => True) (Act.parity me odd args) := by
  induction args with
  | nil => intro odd; exact .done trivial
  | cons a rest ih => intro odd; exact (Gives.truth a me).bind fun b _ => ih (odd != b)

theorem exclusiveOr (h : Discipline I V E) (me : String) (args : List Atom) :
    Gives I V (Allowed V) (Act.exclusiveOr me args) :=
  (parity me args false).bind fun _ _ => .done (.some (h.ofBool _))

theorem untilDecisive (h : Discipline I V E) (he : Obeys I V E eng) (me : String) (decisive : Bool)
    {inputs : List Expr} (hinputs : ∀ e ∈ inputs, E e) :
    Gives I V (Allowed V) (Act.untilDecisive eng me decisive inputs) := by
  induction inputs with
  | nil => exact .done (.some (h.ofBool _))
  | cons e rest ih =>
    obtain ⟨hhead, hrest⟩ := List.forall_mem_cons.mp hinputs
    refine (h.condition he hhead me).bind fun b _ => ?_
    split
    · exact .done (.some (h.ofBool _))
    · exact ih hrest

/-! ## Loops -/

variable {m : Run Unit} {c : Run Bool}

theorem repeatFrom (h : Discipline I V E) (hm : Gives I V (fun _ => True) m) (more : Nat → Bool)
    (rounds : Nat) : ∀ i, Gives I V (fun _ => True) (Act.repeatFrom m more rounds i) := by
  induction rounds with
  | zero => intro i; exact .exhausted
  | succ rounds ih =>
    intro i
    unfold Act.repeatFrom
    split
    · refine Gives.heedAbort.bind fun _ _ => ?_
      refine (Gives.modify fun _ hw => h.repcount i hw).bind fun _ _ => ?_
      exact hm.bind fun _ _ => ih (i + 1)
    · exact .done trivial

/-- Putting the counter back keeps the discipline, however the run ended. -/
theorem repeating (h : Discipline I V E) (hm : Gives I V (fun _ => True) m) (more : Nat → Bool)
    (rounds i : Nat) :
    Gives I V (fun _ => True) (Act.keepingRepcount (Act.repeatFrom m more rounds i)) := by
  intro w hw
  have hs := h.repeatFrom hm more rounds i w hw
  rw [Act.keepingRepcount_apply]
  generalize Act.repeatFrom m more rounds i w = o at hs
  cases o with
  | done a w₁ => exact ⟨h.repcount _ hs.1, trivial⟩
  | exhausted => exact trivial
  | exit e w₁ =>
    cases e with
    | fault f => exact h.repcount _ hs
    | output a => exact ⟨h.repcount _ hs.1, hs.2⟩
    | stop => exact h.repcount _ hs

theorem repeatTimes (h : Discipline I V E) (he : Obeys I V E eng) (hargs : ∀ a ∈ args, V a)
    (me : String) : Gives I V (Allowed V) (Act.repeatTimes eng me args) :=
  (Gives.numberAt hargs me 0).bind fun _ _ => (h.listAt hargs me 1).bind fun _ hbody =>
    (h.repeating (he.perform hbody) _ _ 1).bind fun _ _ => .done .none

theorem forever (h : Discipline I V E) (he : Obeys I V E eng) (hargs : ∀ a ∈ args, V a)
    (me : String) : Gives I V (Allowed V) (Act.forever eng me args) :=
  (h.listAt hargs me 0).bind fun _ hbody =>
    (h.repeating (he.perform hbody) _ _ 1).bind fun _ _ => .done .none

theorem countFrom (h : Discipline I V E) (hm : Gives I V (fun _ => True) m) (name : String)
    (limit step : Float) (rounds : Nat) :
    ∀ current, Gives I V (fun _ => True) (Act.countFrom name limit step m rounds current) := by
  induction rounds with
  | zero => intro current; exact .exhausted
  | succ rounds ih =>
    intro current
    refine Gives.heedAbort.bind fun _ _ => ?_
    split
    · exact .done trivial
    · refine (Gives.modify fun _ hw => h.bindLocal name hw (h.number current)).bind fun _ _ => ?_
      exact hm.bind fun _ _ => ih (current + step)

theorem counting (h : Discipline I V E) (hm : Gives I V (fun _ => True) m) (name : String)
    (limit step : Float) (rounds : Nat) (start : Float) :
    Gives I V (Allowed V) (Act.countFrom name limit step m rounds start >>= fun _ => pure none) :=
  (h.countFrom hm name limit step rounds start).bind fun _ _ => .done .none

theorem loopHeader (me : String) (header : Atom) {items : List Atom} (hitems : ∀ a ∈ items, V a) :
    Gives I V (fun x => ∀ a ∈ x.2, V a) (Act.loopHeader me header items) := by
  unfold Act.loopHeader
  split
  · exact .done (List.forall_mem_cons.mp hitems).2
  · exact .fail _

theorem boundsFrom (he : Obeys I V E eng) (me : String) (header : Atom) (n : Nat) :
    ∀ atoms, (∀ a ∈ atoms, V a) →
      Gives I V (fun _ => True) (Act.boundsFrom eng me header n atoms) := by
  induction n with
  | zero =>
    intro atoms _
    rcases atoms with _ | ⟨a, ts⟩
    · exact .done trivial
    · exact .done trivial
  | succ n ih =>
    intro atoms hatoms
    rcases atoms with _ | ⟨a, ts⟩
    · exact .done trivial
    · refine (he.evaluate hatoms).bind fun x hx => (Gives.require hx.1).bind fun b _ => ?_
      refine (Gives.number b me).bind fun _ _ => (ih x.2 hx.2).bind fun _ _ => .done trivial

theorem forRange (h : Discipline I V E) (he : Obeys I V E eng) (hargs : ∀ a ∈ args, V a)
    (me : String) : Gives I V (Allowed V) (Act.forRange eng me args) := by
  refine (Gives.nth hargs me 0).bind fun header hheader => ?_
  refine (h.items hheader me).bind fun items hitems => (h.listAt hargs me 1).bind fun _ hbody => ?_
  refine (loopHeader me header hitems).bind fun x hx => ?_
  refine (boundsFrom he me header _ x.2 hx).bind fun bounds _ => ?_
  split
  · exact h.counting (he.perform hbody) _ _ _ _ _
  · exact h.counting (he.perform hbody) _ _ _ _ _
  · exact .fail _

theorem loopCount (he : Obeys I V E eng) (me : String) (header : Atom) {atoms : List Atom}
    (hatoms : ∀ a ∈ atoms, V a) :
    Gives I V (fun _ => True) (Act.loopCount eng me header atoms) := by
  refine (he.evaluate hatoms).bind fun x _ => ?_
  split
  · exact .number _ me
  · exact .fail _

theorem doTimes (h : Discipline I V E) (he : Obeys I V E eng) (hargs : ∀ a ∈ args, V a)
    (me : String) : Gives I V (Allowed V) (Act.doTimes eng me args) := by
  refine (Gives.nth hargs me 0).bind fun header hheader => ?_
  refine (h.items hheader me).bind fun items hitems => (h.listAt hargs me 1).bind fun _ hbody => ?_
  refine (loopHeader me header hitems).bind fun x hx => ?_
  dsimp only
  split
  · exact .fail _
  · refine (loopCount he me header hx).bind fun count _ => ?_
    exact h.counting (he.perform hbody) _ _ _ _ _

theorem loopWhile (hc : Gives I V (fun _ => True) c) (hm : Gives I V (fun _ => True) m)
    (wanted : Bool) (rounds : Nat) :
    Gives I V (fun _ => True) (Act.loopWhile c wanted m rounds) := by
  induction rounds with
  | zero => exact .exhausted
  | succ rounds ih =>
    refine Gives.heedAbort.bind fun _ _ => hc.bind fun b _ => ?_
    split
    · exact hm.bind fun _ _ => ih
    · exact .done trivial

theorem performInput (h : Discipline I V E) (he : Obeys I V E eng) (me : String) {e : Expr}
    (hexpr : E e) : Gives I V (fun _ => True) (Act.performInput eng me e) :=
  (he.demand hexpr me).bind fun _ ha => (h.items ha me).bind fun _ hcode => he.perform hcode

theorem testedLoop (h : Discipline I V E) (he : Obeys I V E eng) (me : String) (wanted : Bool)
    {test body : Expr} (htest : E test) (hbody : E body) :
    Gives I V (Allowed V) (Act.testedLoop eng me wanted test body) :=
  (loopWhile (h.condition he htest me) (h.performInput he me hbody) wanted _).bind fun _ _ =>
    .done .none

theorem postTestedLoop (h : Discipline I V E) (he : Obeys I V E eng) (me : String) (wanted : Bool)
    {test body : Expr} (htest : E test) (hbody : E body) :
    Gives I V (Allowed V) (Act.postTestedLoop eng me wanted test body) :=
  (h.performInput he me hbody).bind fun _ _ => h.testedLoop he me wanted htest hbody

/-! ## All primitives -/

theorem run (h : Discipline I V E) (he : Obeys I V E eng) (hargs : ∀ a ∈ args, V a) (me : String) :
    Gives I V (Allowed V) (Act.run eng me args) := by
  refine (Gives.nth hargs me 0).bind fun a ha => ?_
  cases a with
  | list items => exact he.execute true (h.list.mp ha)
  | number x => exact he.execute true (by simpa using ha)
  | word w => exact he.execute true (by simpa using ha)

theorem repcountValue (h : Discipline I V E) : Gives I V (Allowed V) Act.repcount :=
  Gives.world.bind fun _ _ => .done (.some (h.number _))

theorem position (h : Discipline I V E) (t : Turtle) :
    V (.list [.number t.position.x, .number t.position.y]) := by
  simp [h.list, h.number]

theorem applyPrimitive (h : Discipline I V E) (he : Obeys I V E eng) (me : String) (p : Primitive)
    (hargs : ∀ a ∈ args, V a) : Gives I V (Allowed V) (p.apply eng me args) := by
  cases p with
  | forward | back | left | right | setX | setY | setHeading | wait => exact h.driveBy hargs me _
  | setXY | arc => exact h.driveByTwo hargs me _
  | home | clearScreen | penDown | penUp | beep => exact h.drive _
  | position => exact report h.position
  | xCoordinate | yCoordinate | heading =>
    simp only [Primitive.apply]
    exact report fun _ => h.number _
  | isPenDown | isButton => exact report fun _ => h.ofBool _
  | setPosition => exact h.setPosition hargs me
  | towards => exact h.towards hargs me
  | setColor => exact h.setColor hargs me
  | hideTurtle | showTurtle => exact .done .none
  | yes | no => exact .done (.some (h.ofBool _))
  | repeatTimes => exact h.repeatTimes he hargs me
  | forever => exact h.forever he hargs me
  | repcount => exact h.repcountValue
  | forRange => exact h.forRange he hargs me
  | doTimes => exact h.doTimes he hargs me
  | ifElse => exact h.ifElse he hargs me
  | test => exact h.test he hargs me
  | ifTrue | ifFalse => exact h.ifTest he hargs me _
  | caseOf => exact h.caseOf he hargs me
  | condClauses => exact h.condClauses he hargs me
  | run => exact h.run he hargs me
  | output => exact (Gives.nth hargs me 0).bind fun a ha => .output ha
  | stop => exact .stop
  | make => exact h.make hargs me
  | declare => exact h.declare me args
  | declareAndMake => exact h.declareAndMake hargs me
  | thing => exact h.thing hargs me
  | showLine => exact h.writeLine hargs (.inl rfl)
  | printLine => exact h.writeLine hargs (.inr rfl)
  | negation => exact h.negation hargs me
  | exclusiveOr => exact h.exclusiveOr me args

theorem applyDeferred (h : Discipline I V E) (he : Obeys I V E eng) (me : String) (p : Deferred)
    {inputs : List Expr} (hinputs : ∀ e ∈ inputs, E e) :
    Gives I V (Allowed V) (p.apply eng me inputs) := by
  cases p with
  | whileLoop | untilLoop =>
    rcases inputs with _ | ⟨test, _ | ⟨body, rest⟩⟩
    · exact .fail _
    · exact .fail _
    · exact h.testedLoop he me _ (hinputs test (by simp)) (hinputs body (by simp))
  | doWhile | doUntil =>
    rcases inputs with _ | ⟨body, _ | ⟨test, rest⟩⟩
    · exact .fail _
    · exact .fail _
    · exact h.postTestedLoop he me _ (hinputs test (by simp)) (hinputs body (by simp))
  | conjunction | disjunction => exact h.untilDecisive he me _ hinputs

end Discipline

end TurtleLogo.Run
