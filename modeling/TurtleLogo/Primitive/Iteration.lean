import TurtleLogo.Run.Input

set_option autoImplicit false

/-! # Primitives that repeat

Every loop takes a bound on its rounds, and a loop that reaches the bound is cut off. Before each
round the host may stop the program. -/

namespace TurtleLogo.Act

/-! ## Numbered repetitions -/

/-- Runs `body` with the repetition counter at `i`, `i + 1`, … as long as `more` allows. -/
def repeatFrom (body : Run Unit) (more : Nat → Bool) : Nat → Nat → Run Unit
  | 0, _ => fun _ => .exhausted
  | rounds + 1, i => do
    if more i then
      Run.heedAbort
      Run.modify fun w => { w with repcount := i }
      body
      repeatFrom body more rounds (i + 1)
    else pure ()

/-- The same state with the repetition counter at `n`. -/
def withRepcount (n : Nat) (w : World) : World :=
  { w with repcount := n }

/-- Runs something and puts the repetition counter back, however it ends. -/
def keepingRepcount {α : Type} (m : Run α) : Run α :=
  fun w =>
    match m w with
    | .done a w' => .done a (withRepcount w.repcount w')
    | .exit e w' => .exit e (withRepcount w.repcount w')
    | .exhausted => .exhausted

/-- `REPEAT`: runs a list once for each count from one to the first input. -/
def repeatTimes (eng : Engine) (me : String) (args : List Atom) : Run (Option Atom) := do
  let count ← Input.numberAt me args 0
  let body ← Input.listAt me args 1
  keepingRepcount (repeatFrom (eng.perform body) (fun i => Float.ofNat i ≤ count) eng.rounds 1)
  pure none

/-- `FOREVER`: runs a list again and again. -/
def forever (eng : Engine) (me : String) (args : List Atom) : Run (Option Atom) := do
  let body ← Input.listAt me args 0
  keepingRepcount (repeatFrom (eng.perform body) (fun _ => true) eng.rounds 1)
  pure none

/-! ## Counting loops -/

/-- The sign of a number; zero for what is neither positive nor negative. -/
def sign (x : Float) : Int :=
  if x > 0.0 then 1 else if x < 0.0 then -1 else 0

/-- Binds `name` in the innermost frame to `current`, `current + step`, … and runs `body` each
time, until the value has passed `limit` in the direction of `step`. -/
def countFrom (name : String) (limit step : Float) (body : Run Unit) : Nat → Float → Run Unit
  | 0, _ => fun _ => .exhausted
  | rounds + 1, current => do
    Run.heedAbort
    if sign (current - limit) = sign step then pure ()
    else
      Run.onFrames (·.bindLocal name (.number current))
      body
      countFrom name limit step body rounds (current + step)

/-- Drops leading colons and quotation marks. -/
def bareName (w : String) : String :=
  String.ofList (w.toList.dropWhile fun c => c == ':' || c == '"')

/-- The variable of a counting loop and the atoms that give its bounds. -/
def loopHeader (me : String) (header : Atom) (items : List Atom) : Run (String × List Atom) :=
  match items with
  | .word w :: bounds => pure (bareName w, bounds)
  | _ => Run.fail (.unsuitable .badInput me header)

/-- Evaluates expressions until no atoms are left; each must be a number. At most `n` are read. -/
def boundsFrom (eng : Engine) (me : String) (header : Atom) : Nat → List Atom → Run (List Float)
  | _, [] => pure []
  | 0, _ => pure []
  | n + 1, atoms => do
    let (v, rest) ← eng.evaluate atoms
    let a ← Run.require (.unsuitable .badInput me header) v
    let x ← Input.number me a
    let xs ← boundsFrom eng me header n rest
    pure (x :: xs)

/-- `FOR`: counts from one bound to another, by one or by a given step. -/
def forRange (eng : Engine) (me : String) (args : List Atom) : Run (Option Atom) := do
  let header ← Input.nth me args 0
  let items ← Input.list me header
  let body ← Input.listAt me args 1
  let (name, atoms) ← loopHeader me header items
  let bounds ← boundsFrom eng me header atoms.length atoms
  match bounds with
  | [start, limit] =>
    let step := if limit < start then -1.0 else 1.0
    countFrom name limit step (eng.perform body) eng.rounds start
    pure none
  | [start, limit, step] =>
    countFrom name limit step (eng.perform body) eng.rounds start
    pure none
  | _ => Run.fail (.unsuitable .badInput me header)

/-- The single expression that gives the number of rounds of `DOTIMES`. -/
def loopCount (eng : Engine) (me : String) (header : Atom) (atoms : List Atom) : Run Float := do
  match ← eng.evaluate atoms with
  | (some a, []) => Input.number me a
  | _ => Run.fail (.unsuitable .badInput me header)

/-- `DOTIMES`: counts from one to a bound. -/
def doTimes (eng : Engine) (me : String) (args : List Atom) : Run (Option Atom) := do
  let header ← Input.nth me args 0
  let items ← Input.list me header
  let body ← Input.listAt me args 1
  let (name, atoms) ← loopHeader me header items
  if atoms.isEmpty then Run.fail (.unsuitable .badInput me header)
  else
    let count ← loopCount eng me header atoms
    countFrom name count 1.0 (eng.perform body) eng.rounds 1.0
    pure none

/-! ## Conditional loops -/

/-- Runs `body` as long as `condition` is `wanted`. -/
def loopWhile (condition : Run Bool) (wanted : Bool) (body : Run Unit) : Nat → Run Unit
  | 0 => fun _ => .exhausted
  | rounds + 1 => do
    Run.heedAbort
    if (← condition) == wanted then
      body
      loopWhile condition wanted body rounds
    else pure ()

/-- Evaluates an input to a list and runs it. -/
def performInput (eng : Engine) (me : String) (e : Expr) : Run Unit := do
  let a ← eng.demand e me
  let code ← Input.list me a
  eng.perform code

/-- `WHILE` and `UNTIL`: evaluates the condition, then the body, again and again. -/
def testedLoop (eng : Engine) (me : String) (wanted : Bool) (test body : Expr) :
    Run (Option Atom) := do
  loopWhile (eng.condition test me) wanted (performInput eng me body) eng.rounds
  pure none

/-- `DO.WHILE` and `DO.UNTIL`: as `testedLoop`, with one round before the first test. -/
def postTestedLoop (eng : Engine) (me : String) (wanted : Bool) (test body : Expr) :
    Run (Option Atom) := do
  performInput eng me body
  testedLoop eng me wanted test body

end TurtleLogo.Act
