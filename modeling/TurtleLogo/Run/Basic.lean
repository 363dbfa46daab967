import TurtleLogo.World

set_option autoImplicit false

/-! # Running

A run takes the state of an interpreter to an outcome: it is done with a value, it exits early, or
its fuel is exhausted. Both other outcomes carry the state they leave behind.

What needs the whole interpreter (running a list, forcing an expression, entering a procedure) is
named by a `Job`, and everything here takes a function that runs jobs. Tying the knot is left to
`TurtleLogo.Run.Interpret`. -/

namespace TurtleLogo

/-- How a run ends. -/
inductive Outcome (α : Type) where
  | done (value : α) (world : World)
  | exit (e : Exit) (world : World)
  /-- The run was cut off; a larger amount of fuel may finish it. -/
  | exhausted

/-- A computation on the state of an interpreter. -/
def Run (α : Type) : Type :=
  World → Outcome α

namespace Run

variable {α β : Type}

/-- Does nothing. -/
@[always_inline, inline]
def pure (a : α) : Run α :=
  fun w => .done a w

/-- Goes on with the value of a run that is done. -/
@[always_inline, inline]
def bind (m : Run α) (f : α → Run β) : Run β :=
  fun w =>
    match m w with
    | .done a w => f a w
    | .exit e w => .exit e w
    | .exhausted => .exhausted

@[always_inline]
instance : Monad Run where
  pure := pure
  bind := bind

/-- Exits early. -/
def exit (e : Exit) : Run α :=
  fun w => .exit e w

/-- Goes on with the value of a run, or with what ended it early. -/
def attempt (m : Run α) (f : Except Exit α → Run β) : Run β :=
  fun w =>
    match m w with
    | .done a w => f (.ok a) w
    | .exit e w => f (.error e) w
    | .exhausted => .exhausted

/-- Raises a fault. The running procedures are recorded when the innermost of them is left. -/
def fail (cause : Cause) : Run α :=
  exit (.fault { cause })

/-- A result, or a fault. -/
def ofExcept : Except Cause α → Run α
  | .ok a => pure a
  | .error cause => fail cause

/-- A result, or a fault for want of one. -/
def require (cause : Cause) : Option α → Run α
  | some a => pure a
  | none => fail cause

/-- The state. -/
@[inline]
def world : Run World :=
  fun w => .done w w

/-- Changes the state. -/
@[inline]
def modify (f : World → World) : Run Unit :=
  fun w => .done () (f w)

/-- Changes the turtle. -/
@[inline]
def onTurtle (f : Turtle → Turtle) : Run Unit :=
  modify fun w => { w with turtle := f w.turtle }

/-- Changes the frames. -/
@[inline]
def onFrames (f : Frames → Frames) : Run Unit :=
  modify fun w => { w with frames := f w.frames }

/-- Stops here if the host has asked for it. -/
def heedAbort : Run Unit :=
  fun w => if w.aborted then .exit (.fault { cause := .aborted }) w else .done () w

end Run

/-! ## Entering and leaving procedures -/

/-- Puts a procedure among the running ones, unless the program is to stop or too many are
running. -/
def enter (name : String) : Run Unit :=
  fun w =>
    if w.aborted then .exit (.fault { cause := .aborted }) w
    else if w.calls.size ≥ w.limit then
      .exit (.fault { cause := .tooDeep w.limit, stack := w.calls.toList }) w
    else .done () { w with calls := w.calls.push name }

/-- Drops the innermost running procedure. -/
def World.dropCall (w : World) : World :=
  { w with calls := w.calls.pop }

/-- Runs the innermost running procedure and leaves it, recording the running procedures in a
fault that has none recorded. -/
def leaving {α : Type} (m : Run α) : Run α :=
  fun w =>
    match m w with
    | .done a w => .done a w.dropCall
    | .exit (.fault f) w => .exit (.fault (f.record w.calls)) w.dropCall
    | .exit e w => .exit e w.dropCall
    | .exhausted => .exhausted

/-! ## Jobs -/

/-- What the interpreter can be asked to do. -/
inductive Job where
  /-- Run a list of instructions; with `keep`, the value of an instruction is no fault. -/
  | execute (code : List Atom) (keep : Bool)
  /-- Evaluate an expression. -/
  | force (e : Expr)
  /-- Run a procedure that has been entered. -/
  | invoke (p : Procedure) (inputs : List Expr)

/-- What a primitive may use: a way to run jobs, a way to take an expression off the front of a list
of atoms, which gives it with the atoms that are left, and a bound on the rounds of a loop. -/
structure Engine where
  run : Job → Run (Option Atom)
  read : List Atom → Run (Expr × List Atom)
  rounds : Nat

namespace Engine

/-- Runs a list of instructions. -/
def execute (eng : Engine) (code : List Atom) (keep : Bool) : Run (Option Atom) :=
  eng.run (.execute code keep)

/-- Runs a list of instructions none of which may leave a value. -/
def perform (eng : Engine) (code : List Atom) : Run Unit := do
  let _ ← eng.execute code false
  pure ()

/-- Evaluates an expression. -/
def force (eng : Engine) (e : Expr) : Run (Option Atom) :=
  eng.run (.force e)

/-- Evaluates an expression whose value `consumer` needs. -/
def demand (eng : Engine) (e : Expr) (consumer : String) : Run Atom := do
  let v ← eng.force e
  Run.require (.noOutput e.producer consumer) v

/-- Runs a list for its value. -/
def demandList (eng : Engine) (items : List Atom) (consumer : String) : Run Atom := do
  let v ← eng.execute items true
  Run.require (.noOutput (Atom.list items).display consumer) v

/-- The value of a condition, where a list is run first. -/
def settle (eng : Engine) (a : Atom) (consumer : String) : Run Atom :=
  match a with
  | .list items => eng.demandList items consumer
  | a => pure a

/-- The truth value of a condition. -/
def truthFor (eng : Engine) (a : Atom) (consumer : String) : Run Bool := do
  let v ← eng.settle a consumer
  Run.require (.unsuitable .notABoolean consumer v) v.truth?

/-- The truth value of an unevaluated condition. -/
def condition (eng : Engine) (e : Expr) (consumer : String) : Run Bool := do
  let a ← eng.demand e consumer
  eng.truthFor a consumer

/-- Reads one expression off the atoms; gives it with the atoms that are left. -/
def parse (atoms : List Atom) : Run (Expr × List Atom) :=
  fun w =>
    match parseExpr w.parseContext ⟨atoms, w.procedures⟩ with
    | .ok e s => .done (e, s.atoms) { w with procedures := s.registry }
    | .fail f s => .exit (.fault f) { w with procedures := s.registry }

/-- Reads and evaluates one expression; gives its value with the atoms that are left. -/
def evaluate (eng : Engine) (atoms : List Atom) : Run (Option Atom × List Atom) := do
  let (e, rest) ← eng.read atoms
  let v ← eng.force e
  pure (v, rest)

end Engine

end TurtleLogo
