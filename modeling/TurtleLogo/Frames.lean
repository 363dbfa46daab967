import TurtleLogo.Atom.Basic
import TurtleLogo.NameTable

set_option autoImplicit false

/-! # Frames of variables

Every running procedure has a frame of its own variables, and behind all of them stands the global
frame. A variable is looked up from the innermost frame outwards, so a procedure sees the variables
of its callers. A cell without a value has been declared but not assigned. -/

namespace TurtleLogo

/-- The variables of one procedure, and the flag that `TEST` leaves for `IFTRUE` and `IFFALSE`. -/
structure Frame where
  cells : NameTable (Option Atom) := {}
  test : Option Bool := none

/-- Assigns a variable of this frame, creating its cell if need be. -/
def Frame.bind (f : Frame) (name : String) (a : Atom) : Frame :=
  { f with cells := f.cells.insert name (some a) }

/-- Creates a cell without a value, unless the frame has one of that name. -/
def Frame.declare (f : Frame) (name : String) : Frame :=
  if f.cells.contains name then f else { f with cells := f.cells.insert name none }

/-- The frames in use: those of running procedures, innermost first, and the global one. -/
structure Frames where
  inner : List Frame := []
  globals : Frame := {}

namespace Frames

/-- How many frames there are. -/
def depth (fs : Frames) : Nat :=
  fs.inner.length + 1

/-- Adds a fresh innermost frame. -/
def push (fs : Frames) : Frames :=
  { fs with inner := {} :: fs.inner }

/-- Drops the innermost frame; the global frame stays. -/
def pop (fs : Frames) : Frames :=
  { fs with inner := fs.inner.tail }

/-- The innermost frame. -/
def innermost (fs : Frames) : Frame :=
  fs.inner.headD fs.globals

/-- Changes the innermost frame. -/
def modifyInnermost (fs : Frames) (change : Frame → Frame) : Frames :=
  match fs.inner with
  | [] => { fs with globals := change fs.globals }
  | f :: rest => { fs with inner := change f :: rest }

/-- The cell of a variable in the first of `inner` that has one, or else in `globals`. -/
def lookupFrom (globals : Frame) (name : String) : List Frame → Option (Option Atom)
  | [] => globals.cells.get? name
  | f :: rest =>
    match f.cells.get? name with
    | some cell => some cell
    | none => lookupFrom globals name rest

/-- The cell of a variable as seen from the innermost frame. -/
def lookup (fs : Frames) (name : String) : Option (Option Atom) :=
  lookupFrom fs.globals name fs.inner

/-- The value of a variable, if it has a cell and the cell a value. -/
def get? (fs : Frames) (name : String) : Option Atom :=
  (fs.lookup name).join

/-- Assigns the variable in the first frame that has a cell for it; none if there is no such
frame. -/
def assignInner (name : String) (a : Atom) : List Frame → Option (List Frame)
  | [] => none
  | f :: rest =>
    if f.cells.contains name then some (f.bind name a :: rest)
    else (assignInner name a rest).map (f :: ·)

/-- Assigns a variable where it is visible, and globally if it is visible nowhere. -/
def assign (fs : Frames) (name : String) (a : Atom) : Frames :=
  match assignInner name a fs.inner with
  | some inner => { fs with inner }
  | none => { fs with globals := fs.globals.bind name a }

/-- Assigns a variable of the innermost frame. -/
def bindLocal (fs : Frames) (name : String) (a : Atom) : Frames :=
  fs.modifyInnermost (·.bind name a)

/-- Declares a variable of the innermost frame. -/
def declareLocal (fs : Frames) (name : String) : Frames :=
  fs.modifyInnermost (·.declare name)

/-- Sets or clears the flag of the innermost frame. -/
def setTest (fs : Frames) (flag : Option Bool) : Frames :=
  fs.modifyInnermost fun f => { f with test := flag }

end Frames

end TurtleLogo
