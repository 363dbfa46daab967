import TurtleLogo.Expr
import TurtleLogo.Frames
import TurtleLogo.Turtle.Basic

set_option autoImplicit false

/-! # The state of an interpreter

Everything that a running program can read or change. -/

namespace TurtleLogo

/-- The part of the stack, in bytes, that one nested call may take. -/
def stackPerCall : Nat :=
  16 * 1024

/-- How many calls may be nested on a stack of so many bytes. -/
def callLimit (stackBytes : Nat) : Nat :=
  max (stackBytes / stackPerCall) 1

/-- The limit for a stack of two mebibytes. -/
def defaultLimit : Nat :=
  callLimit (2 * 1024 * 1024)

/-- The state of an interpreter. -/
structure World where
  procedures : Registry := Registry.standard
  frames : Frames := {}
  /-- The number of the current repetition in the innermost `REPEAT` or `FOREVER`. -/
  repcount : Nat := 0
  /-- The running procedures, outermost first. -/
  calls : Array String := #[]
  turtle : Turtle := {}
  /-- The lines written so far. -/
  lines : Array String := #[]
  /-- How many calls may be nested. -/
  limit : Nat := defaultLimit
  /-- Whether the host has asked the program to stop. -/
  aborted : Bool := false

namespace World

/-- The value of a variable. -/
def value? (w : World) (name : String) : Option Atom :=
  w.frames.get? name

/-- Assigns a variable, and the board if the variable is wired to it. -/
def assign (w : World) (name : String) (a : Atom) : World :=
  { w with frames := w.frames.assign name a, turtle := w.turtle.assign name a }

/-- What reading an expression needs to know. -/
def parseContext (w : World) : Parse.Context :=
  ⟨w.calls, w.limit, w.aborted⟩

/-- What a host may look at. -/
def glimpse (w : World) : Glimpse where
  depth := w.frames.depth
  calls := w.calls.toList
  repcount := w.repcount
  value := w.value?
  procedure name := (w.procedures.get? name).map Procedure.signature
  turtle := w.turtle
  aborted := w.aborted

end World

end TurtleLogo
