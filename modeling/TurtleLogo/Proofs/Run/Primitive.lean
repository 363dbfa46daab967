import TurtleLogo.Proofs.Run.Compatible

set_option autoImplicit false

/-! # The primitives respect what running respects

One lemma for each primitive or part of one, up to `Compatible.applyPrimitive` and
`Compatible.applyDeferred`. Every loop is cut off after a number of rounds, and its lemma goes by
induction on that number. -/

namespace TurtleLogo.Run.Compatible

variable {ι : Type} {least : ι} {Sound : Expr → Prop} {R : (α : Type) → (ι → Run α) → Prop}
variable {eng : ι → Engine}

/-! ## The turtle -/

theorem drive (h : Compatible least Sound R) (f : Turtle → Turtle) : R _ fun _ => Act.drive f :=
  h.bind (h.onTurtle f) fun _ => h.done none

theorem report (h : Compatible least Sound R) (f : Turtle → Atom) : R _ fun _ => Act.report f :=
  h.look (fun w => w.turtle) (fun _ _ _ => rfl) fun t => h.done (some (f t))

theorem driveBy (h : Compatible least Sound R) (me : String) (args : List Atom)
    (hargs : Supplied R 1 args.length) (f : Float → Turtle → Turtle) :
    R _ fun _ => Act.driveBy me args f :=
  h.bind (h.numberAt me args 0 hargs) fun n => h.drive (f n)

theorem driveByTwo (h : Compatible least Sound R) (me : String) (args : List Atom)
    (hargs : Supplied R 2 args.length) (f : Float → Float → Turtle → Turtle) :
    R _ fun _ => Act.driveByTwo me args f :=
  h.bind (h.numberAt me args 0 hargs.pred) fun m => h.bind (h.numberAt me args 1 hargs) fun n =>
    h.drive (f m n)

theorem setPosition (h : Compatible least Sound R) (me : String) (args : List Atom)
    (hargs : Supplied R 1 args.length) : R _ fun _ => Act.setPosition me args :=
  h.bind (h.pointAt me args 0 hargs) fun p => h.drive (·.moveTo p)

theorem towards (h : Compatible least Sound R) (me : String) (args : List Atom)
    (hargs : Supplied R 1 args.length) : R _ fun _ => Act.towards me args :=
  h.bind (h.pointAt me args 0 hargs) fun p => h.report fun t => .number (t.towards p)

theorem setColor (h : Compatible least Sound R) (me : String) (args : List Atom)
    (hargs : Supplied R 1 args.length) : R _ fun _ => Act.setColor me args :=
  h.bind (h.nth me args 0 hargs) fun color => h.drive (·.setColor color)

/-! ## Variables and lines -/

theorem make (h : Compatible least Sound R) (me : String) (args : List Atom)
    (hargs : Supplied R 2 args.length) : R _ fun _ => Act.make me args :=
  h.bind (h.wordAt me args 0 hargs.pred) fun name => h.bind (h.nth me args 1 hargs) fun a =>
    h.bind (h.assign name a) fun _ => h.done none

theorem declareAndMake (h : Compatible least Sound R) (me : String) (args : List Atom)
    (hargs : Supplied R 2 args.length) : R _ fun _ => Act.declareAndMake me args :=
  h.bind (h.wordAt me args 0 hargs.pred) fun name => h.bind (h.declareLocal name) fun _ =>
    h.bind (h.nth me args 1 hargs) fun a => h.bind (h.assign name a) fun _ => h.done none

theorem declareAll (h : Compatible least Sound R) (me : String) (atoms : List Atom) :
    R _ fun _ => Act.declareAll me atoms := by
  induction atoms with
  | nil => exact h.done ()
  | cons a rest ih =>
    exact h.bind (h.word me a) fun name => h.bind (h.declareLocal name) fun _ => ih

theorem declare (h : Compatible least Sound R) (me : String) (args : List Atom) :
    R _ fun _ => Act.declare me args :=
  h.bind (h.declareAll me _) fun _ => h.done none

theorem thing (h : Compatible least Sound R) (me : String) (args : List Atom)
    (hargs : Supplied R 1 args.length) : R _ fun _ => Act.thing me args :=
  h.bind (h.wordAt me args 0 hargs) fun name =>
    h.look (fun w => w.value? name) (fun _ _ _ => rfl) fun a =>
      h.bind (h.require _ rfl a) fun a => h.done (some a)

theorem writeLine (h : Compatible least Sound R) (texts : List String) :
    R _ fun _ => Act.writeLine texts :=
  h.bind (h.write _) fun _ => h.done none

/-! ## Choices -/

theorem ifElse (h : Compatible least Sound R) (he : Engines least Sound R eng) (me : String)
    (args : List Atom) : R _ fun i => Act.ifElse (eng i) me args := by
  unfold Act.ifElse
  split
  · refine h.bind (h.truthFor he _ me) fun b => ?_
    dsimp only
    split
    · exact h.bind (h.list me _) fun code => he.execute code true
    · exact h.done none
  · exact h.fail _ rfl

theorem test (h : Compatible least Sound R) (he : Engines least Sound R eng) (me : String)
    (args : List Atom) (hargs : Supplied R 1 args.length) : R _ fun i => Act.test (eng i) me args :=
  h.bind (h.nth me args 0 hargs) fun a => h.bind (h.truthFor he a me) fun b =>
    h.bind (h.setTest (some b)) fun _ => h.done none

theorem ifTest (h : Compatible least Sound R) (he : Engines least Sound R eng) (me : String)
    (wanted : Bool) (args : List Atom) (hargs : Supplied R 1 args.length) :
    R _ fun i => Act.ifTest (eng i) me wanted args := by
  refine h.bind (h.nth me args 0 hargs) fun a => ?_
  -- The state is looked at once, for the flag, and what follows depends on the flag alone.
  have hflag : ∀ flag : Option Bool,
      R _ fun i => Run.require (.testMissing me) flag >>= fun b => Input.list me a >>= fun code =>
          if b == wanted then (eng i).execute code true else pure none := by
    intro flag
    refine h.bind (h.require _ rfl flag) fun b => h.bind (h.list me a) fun code => ?_
    split
    · exact he.execute code true
    · exact h.done none
  exact h.look (fun w => w.frames.innermost.test) (fun _ _ _ => rfl) hflag

theorem clause (h : Compatible least Sound R) (me : String) (a : Atom) :
    R _ fun _ => Act.clause me a := by
  refine h.bind (h.list me a) fun items => ?_
  cases items with
  | nil => exact h.fail _ rfl
  | cons head code => exact h.done (head, code)

theorem caseFrom (h : Compatible least Sound R) (he : Engines least Sound R eng) (me : String)
    (key : Atom) (clauses : List Atom) : R _ fun i => Act.caseFrom (eng i) me key clauses := by
  induction clauses with
  | nil => exact h.done none
  | cons c rest ih =>
    refine h.bind (h.clause me c) fun x => ?_
    dsimp only
    split
    · exact he.execute x.2 true
    · exact ih

theorem caseOf (h : Compatible least Sound R) (he : Engines least Sound R eng) (me : String)
    (args : List Atom) (hargs : Supplied R 2 args.length) :
    R _ fun i => Act.caseOf (eng i) me args :=
  h.bind (h.listAt me args 1 hargs) fun clauses => h.bind (h.nth me args 0 hargs.pred) fun key =>
    h.caseFrom he me key clauses

theorem testValue (h : Compatible least Sound R) (he : Engines least Sound R eng) (a : Atom) :
    R _ fun i => Act.testValue (eng i) a := by
  cases a with
  | list items => exact h.demandList he items "COND"
  | number x => exact h.bind (h.evaluate he _) fun v => h.require _ rfl v.1
  | word w => exact h.bind (h.evaluate he _) fun v => h.require _ rfl v.1

theorem testHolds (h : Compatible least Sound R) (he : Engines least Sound R eng) (a : Atom) :
    R _ fun i => Act.testHolds (eng i) a := by
  unfold Act.testHolds
  split
  · exact h.done true
  · exact h.bind (h.testValue he a) fun v => h.truthFor he v "COND"

theorem condFrom (h : Compatible least Sound R) (he : Engines least Sound R eng) (me : String)
    (clauses : List Atom) : R _ fun i => Act.condFrom (eng i) me clauses := by
  induction clauses with
  | nil => exact h.done none
  | cons c rest ih =>
    refine h.bind (h.clause me c) fun x => h.bind (h.testHolds he x.1) fun b => ?_
    split
    · exact he.execute x.2 true
    · exact ih

theorem condClauses (h : Compatible least Sound R) (he : Engines least Sound R eng) (me : String)
    (args : List Atom) (hargs : Supplied R 1 args.length) :
    R _ fun i => Act.condClauses (eng i) me args :=
  h.bind (h.listAt me args 0 hargs) fun clauses => h.condFrom he me clauses

theorem negation (h : Compatible least Sound R) (me : String) (args : List Atom)
    (hargs : Supplied R 1 args.length) : R _ fun _ => Act.negation me args :=
  h.bind (h.nth me args 0 hargs) fun a => h.bind (h.truth me a) fun _ => h.done _

theorem parity (h : Compatible least Sound R) (me : String) (args : List Atom) :
    ∀ odd, R _ fun _ => Act.parity me odd args := by
  induction args with
  | nil => intro odd; exact h.done odd
  | cons a rest ih => intro odd; exact h.bind (h.truth me a) fun b => ih (odd != b)

theorem exclusiveOr (h : Compatible least Sound R) (me : String) (args : List Atom) :
    R _ fun _ => Act.exclusiveOr me args :=
  h.bind (h.parity me args false) fun _ => h.done _

theorem untilDecisive (h : Compatible least Sound R) (he : Engines least Sound R eng) (me : String)
    (decisive : Bool) (args : List Expr) (hs : ∀ e ∈ args, Sound e) :
    R _ fun i => Act.untilDecisive (eng i) me decisive args := by
  induction args with
  | nil => exact h.done _
  | cons e rest ih =>
    obtain ⟨hhead, hrest⟩ := List.forall_mem_cons.mp hs
    refine h.bind (h.condition he hhead me) fun b => ?_
    split
    · exact h.done _
    · exact ih hrest

/-! ## Loops -/

variable {m : ι → Run Unit} {c : ι → Run Bool}

/-- A repetition is a sequence of rounds each of which keeps the counter. -/
theorem repeating (h : Compatible least Sound R) (hcut : CutsOff least R) (hm : R _ m)
    (more : Nat → Bool) (n : Nat) :
    ∀ (rounds : ι → Nat) (k : Nat), rounds least = n → (∀ i, n ≤ rounds i) →
      R _ fun i => Act.keepingRepcount (Act.repeatFrom (m i) more (rounds i) k) := by
  induction n with
  | zero =>
    intro rounds k hleast _
    exact hcut fun w => by rw [hleast]; rfl
  | succ n ih =>
    intro rounds k hleast hle
    obtain ⟨rounds, rfl, hle'⟩ := exists_succ hle
    simp only [Act.keepingRepcount_repeatFrom]
    by_cases hmore : more k = true
    · simp only [hmore, if_true]
      refine h.bind h.heedAbort fun _ => h.bind (h.counted k hm) fun _ => ?_
      exact ih rounds (k + 1) (Nat.succ.inj hleast) hle'
    · simp only [hmore]
      exact h.done ()

theorem repeatTimes (h : Compatible least Sound R) (he : Engines least Sound R eng)
    (hcut : CutsOff least R) (me : String) (args : List Atom) (hargs : Supplied R 2 args.length) :
    R _ fun i => Act.repeatTimes (eng i) me args :=
  h.bind (h.numberAt me args 0 hargs.pred) fun _ => h.bind (h.listAt me args 1 hargs) fun body =>
    h.bind (h.repeating hcut (h.perform he body) _ _ _ 1 rfl he.rounds) fun _ => h.done none

theorem forever (h : Compatible least Sound R) (he : Engines least Sound R eng)
    (hcut : CutsOff least R) (me : String) (args : List Atom) (hargs : Supplied R 1 args.length) :
    R _ fun i => Act.forever (eng i) me args :=
  h.bind (h.listAt me args 0 hargs) fun body =>
    h.bind (h.repeating hcut (h.perform he body) _ _ _ 1 rfl he.rounds) fun _ => h.done none

theorem countFrom (h : Compatible least Sound R) (hcut : CutsOff least R) (hm : R _ m)
    (name : String) (limit step : Float) (n : Nat) :
    ∀ (rounds : ι → Nat) (current : Float), rounds least = n → (∀ i, n ≤ rounds i) →
      R _ fun i => Act.countFrom name limit step (m i) (rounds i) current := by
  induction n with
  | zero =>
    intro rounds current hleast _
    exact hcut fun w => by rw [hleast]; rfl
  | succ n ih =>
    intro rounds current hleast hle
    obtain ⟨rounds, rfl, hle'⟩ := exists_succ hle
    refine h.bind h.heedAbort fun _ => ?_
    by_cases hpast : Act.sign (current - limit) = Act.sign step
    · simp only [hpast, if_true]
      exact h.done ()
    · simp only [hpast, if_false]
      refine h.bind (h.bindLocal name _) fun _ => h.bind hm fun _ => ?_
      exact ih rounds (current + step) (Nat.succ.inj hleast) hle'

theorem loopHeader (h : Compatible least Sound R) (me : String) (header : Atom)
    (items : List Atom) : R _ fun _ => Act.loopHeader me header items := by
  unfold Act.loopHeader
  split
  · exact h.done _
  · exact h.fail _ rfl

theorem boundsFrom (h : Compatible least Sound R) (he : Engines least Sound R eng) (me : String)
    (header : Atom) (n : Nat) : ∀ atoms, R _ fun i => Act.boundsFrom (eng i) me header n atoms := by
  induction n with
  | zero =>
    intro atoms
    cases atoms with
    | nil => exact h.done []
    | cons a ts => exact h.done []
  | succ n ih =>
    intro atoms
    cases atoms with
    | nil => exact h.done []
    | cons a ts =>
      exact h.bind (h.evaluate he _) fun v => h.bind (h.require _ rfl v.1) fun a =>
        h.bind (h.number me a) fun x => h.bind (ih v.2) fun xs => h.done (x :: xs)

theorem forRange (h : Compatible least Sound R) (he : Engines least Sound R eng)
    (hcut : CutsOff least R) (me : String) (args : List Atom) (hargs : Supplied R 2 args.length) :
    R _ fun i => Act.forRange (eng i) me args := by
  refine h.bind (h.nth me args 0 hargs.pred) fun header => h.bind (h.list me header) fun items => ?_
  refine h.bind (h.listAt me args 1 hargs) fun body => ?_
  refine h.bind (h.loopHeader me header items) fun x => ?_
  refine h.bind (h.boundsFrom he me header _ x.2) fun bounds => ?_
  have hrounds := h.perform he body
  split
  · exact h.bind (h.countFrom hcut hrounds _ _ _ _ _ _ rfl he.rounds) fun _ => h.done none
  · exact h.bind (h.countFrom hcut hrounds _ _ _ _ _ _ rfl he.rounds) fun _ => h.done none
  · exact h.fail _ rfl

theorem loopCount (h : Compatible least Sound R) (he : Engines least Sound R eng) (me : String)
    (header : Atom) (atoms : List Atom) : R _ fun i => Act.loopCount (eng i) me header atoms := by
  refine h.bind (h.evaluate he atoms) fun x => ?_
  split
  · exact h.number me _
  · exact h.fail _ rfl

theorem doTimes (h : Compatible least Sound R) (he : Engines least Sound R eng)
    (hcut : CutsOff least R) (me : String) (args : List Atom) (hargs : Supplied R 2 args.length) :
    R _ fun i => Act.doTimes (eng i) me args := by
  refine h.bind (h.nth me args 0 hargs.pred) fun header => h.bind (h.list me header) fun items => ?_
  refine h.bind (h.listAt me args 1 hargs) fun body => ?_
  refine h.bind (h.loopHeader me header items) fun x => ?_
  dsimp only
  split
  · exact h.fail _ rfl
  · refine h.bind (h.loopCount he me header x.2) fun count => ?_
    have hrounds := h.perform he body
    exact h.bind (h.countFrom hcut hrounds _ _ _ _ _ _ rfl he.rounds) fun _ => h.done none

theorem loopWhile (h : Compatible least Sound R) (hcut : CutsOff least R) (hc : R _ c)
    (hm : R _ m) (wanted : Bool) (n : Nat) :
    ∀ rounds : ι → Nat, rounds least = n → (∀ i, n ≤ rounds i) →
      R _ fun i => Act.loopWhile (c i) wanted (m i) (rounds i) := by
  induction n with
  | zero =>
    intro rounds hleast _
    exact hcut fun w => by rw [hleast]; rfl
  | succ n ih =>
    intro rounds hleast hle
    obtain ⟨rounds, rfl, hle'⟩ := exists_succ hle
    refine h.bind h.heedAbort fun _ => h.bind hc fun b => ?_
    by_cases hb : (b == wanted) = true
    · simp only [hb, if_true]
      exact h.bind hm fun _ => ih rounds (Nat.succ.inj hleast) hle'
    · simp only [hb]
      exact h.done ()

theorem performInput (h : Compatible least Sound R) (he : Engines least Sound R eng) (me : String)
    {e : Expr} (hs : Sound e) : R _ fun i => Act.performInput (eng i) me e :=
  h.bind (h.demand he hs me) fun a => h.bind (h.list me a) fun code => h.perform he code

theorem testedLoop (h : Compatible least Sound R) (he : Engines least Sound R eng)
    (hcut : CutsOff least R) (me : String) (wanted : Bool) {test body : Expr} (htest : Sound test)
    (hbody : Sound body) :
    R _ fun i => Act.testedLoop (eng i) me wanted test body :=
  have hcondition := h.condition he htest me
  have hrepeat := h.performInput he me hbody
  h.bind (h.loopWhile hcut hcondition hrepeat wanted _ _ rfl he.rounds) fun _ => h.done none

theorem postTestedLoop (h : Compatible least Sound R) (he : Engines least Sound R eng)
    (hcut : CutsOff least R) (me : String) (wanted : Bool) {test body : Expr} (htest : Sound test)
    (hbody : Sound body) :
    R _ fun i => Act.postTestedLoop (eng i) me wanted test body :=
  h.bind (h.performInput he me hbody) fun _ => h.testedLoop he hcut me wanted htest hbody

/-! ## All primitives -/

theorem run (h : Compatible least Sound R) (he : Engines least Sound R eng) (me : String)
    (args : List Atom) (hargs : Supplied R 1 args.length) :
    R _ fun i => Act.run (eng i) me args := by
  refine h.bind (h.nth me args 0 hargs) fun a => ?_
  cases a with
  | list items => exact he.execute items true
  | number x => exact he.execute [.number x] true
  | word w => exact he.execute [.word w] true

theorem repcount (h : Compatible least Sound R) : R _ fun _ => Act.repcount :=
  h.look (fun w => w.repcount) (fun _ _ _ => rfl) fun n =>
    h.done (some (Atom.number (Float.ofNat n)))

theorem applyPrimitive (h : Compatible least Sound R) (he : Engines least Sound R eng) (me : String)
    (p : Primitive) (hloop : p.isLoop = true → CutsOff least R) (args : List Atom)
    (hargs : Supplied R p.needs args.length) :
    R _ fun i => p.apply (eng i) me args := by
  cases p with
  | forward | back | left | right | setX | setY | setHeading | wait =>
    exact h.driveBy me args hargs _
  | setXY | arc => exact h.driveByTwo me args hargs _
  | home | clearScreen | penDown | penUp | beep => exact h.drive _
  | position | xCoordinate | yCoordinate | heading | isPenDown | isButton =>
    simp only [Primitive.apply]
    exact h.report _
  | setPosition => exact h.setPosition me args hargs
  | towards => exact h.towards me args hargs
  | setColor => exact h.setColor me args hargs
  | hideTurtle | showTurtle | yes | no => exact h.done _
  | repeatTimes => exact h.repeatTimes he (hloop rfl) me args hargs
  | forever => exact h.forever he (hloop rfl) me args hargs
  | repcount => exact h.repcount
  | forRange => exact h.forRange he (hloop rfl) me args hargs
  | doTimes => exact h.doTimes he (hloop rfl) me args hargs
  | ifElse => exact h.ifElse he me args
  | test => exact h.test he me args hargs
  | ifTrue | ifFalse => exact h.ifTest he me _ args hargs
  | caseOf => exact h.caseOf he me args hargs
  | condClauses => exact h.condClauses he me args hargs
  | run => exact h.run he me args hargs
  | output => exact h.bind (h.nth me args 0 hargs) fun a => h.output a
  | stop => exact h.stop
  | make => exact h.make me args hargs
  | declare => exact h.declare me args
  | declareAndMake => exact h.declareAndMake me args hargs
  | thing => exact h.thing me args hargs
  | showLine | printLine => exact h.writeLine _
  | negation => exact h.negation me args hargs
  | exclusiveOr => exact h.exclusiveOr me args

theorem applyDeferred (h : Compatible least Sound R) (he : Engines least Sound R eng) (me : String)
    (p : Deferred) (hloop : p.isLoop = true → CutsOff least R) (args : List Expr)
    (hs : ∀ e ∈ args, Sound e) (hargs : Supplied R p.needs args.length) :
    R _ fun i => p.apply (eng i) me args := by
  cases p with
  | whileLoop | untilLoop =>
    rcases args with _ | ⟨test, _ | ⟨body, rest⟩⟩
    · exact hargs.fail Nat.two_pos me
    · exact hargs.fail Nat.one_lt_two me
    · exact h.testedLoop he (hloop rfl) me _ (hs test (by simp)) (hs body (by simp))
  | doWhile | doUntil =>
    rcases args with _ | ⟨body, _ | ⟨test, rest⟩⟩
    · exact hargs.fail Nat.two_pos me
    · exact hargs.fail Nat.one_lt_two me
    · exact h.postTestedLoop he (hloop rfl) me _ (hs test (by simp)) (hs body (by simp))
  | conjunction | disjunction => exact h.untilDecisive he me _ args hs

end TurtleLogo.Run.Compatible
