import TurtleLogo.Definition
import TurtleLogo.Fault
import TurtleLogo.Turtle.Basic

set_option autoImplicit false

/-! # Primitives of a host

A program that embeds the interpreter may add primitives of its own. What such a primitive does with
its inputs is described by a `HostAction`: a tree of the interpreter's public operations, each
followed by what the primitive does with the answer.

Where a host has instructions run, the answer is how they ended: with a value, without one, or
early. The primitive may pass on an early exit or go on. It may also raise a fault of its own, which
is told from those of the interpreter by its cause; the type of an action says which exits it has
been handed and may pass on. -/

namespace TurtleLogo

/-- What a host can see of a procedure. -/
structure Signature where
  name : String
  arity : Arity
  /-- The definition, unless the procedure is a primitive. -/
  definition : Option Definition

/-- What a host can see of a running program. -/
structure Glimpse where
  /-- How many frames of variables there are. -/
  depth : Nat
  /-- The running procedures, outermost first. -/
  calls : List String
  /-- The repetition counter. -/
  repcount : Nat
  /-- The value of a variable. -/
  value : String → Option Atom
  /-- The procedure of a name. -/
  procedure : String → Option Signature
  turtle : Turtle
  /-- Whether the program has been asked to stop. -/
  aborted : Bool

/-- The exits that a host has been handed once it has been told how its instructions ended. -/
def handedAfter {α : Type} (handed : List Exit) : Except Exit α → List Exit
  | .ok _ => handed
  | .error e => e :: handed

/-- What a host primitive does that has been handed the exits `handed`. -/
inductive HostAction : (handed : List Exit := []) → Type where
  /-- Ends with a value or without. -/
  | finish {handed : List Exit} (value : Option Atom) : HostAction handed
  /-- Raises a fault, which may have procedures recorded. -/
  | fail {handed : List Exit} (kind : FaultKind) (message : String) (stack : List String := []) :
    HostAction handed
  /-- Ends the procedure that called the primitive. -/
  | stop {handed : List Exit} : HostAction handed
  /-- Ends the procedure that called the primitive, with a value. -/
  | output {handed : List Exit} (value : Atom) : HostAction handed
  /-- Ends as instructions did that the primitive had run. -/
  | passOn {handed : List Exit} (e : Exit) (h : e ∈ handed) : HostAction handed
  /-- Asks the program to stop, and goes on. -/
  | abort {handed : List Exit} (next : HostAction handed) : HostAction handed
  /-- Takes back what `abort` asked for, and goes on. -/
  | resume {handed : List Exit} (next : HostAction handed) : HostAction handed
  /-- Assigns a variable, and goes on. -/
  | assign {handed : List Exit} (name : String) (value : Atom) (next : HostAction handed) :
    HostAction handed
  /-- Looks at the running program. -/
  | observe {handed : List Exit} (next : Glimpse → HostAction handed) : HostAction handed
  /-- Runs instructions, and goes on with how they ended. -/
  | attempt {handed : List Exit} (code : List Atom) (keep : Bool)
    (next : (result : Except Exit (Option Atom)) → HostAction (handedAfter handed result)) :
    HostAction handed

/-- Runs instructions, and goes on with their value; an early exit of theirs is passed on. -/
def HostAction.execute {handed : List Exit} (code : List Atom) (keep : Bool)
    (next : Option Atom → HostAction handed) : HostAction handed :=
  attempt code keep fun
    | .ok v => next v
    | .error e => passOn e (List.mem_cons_self ..)

end TurtleLogo
