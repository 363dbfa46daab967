import TurtleLogo.Run.Basic

set_option autoImplicit false

/-! # Inputs of primitives

A primitive asks for its inputs by position and kind; `me` is the name under which it was called
and by which it complains. -/

namespace TurtleLogo.Input

/-- The input at a position. -/
def nth (me : String) (args : List Atom) (i : Nat) : Run Atom :=
  Run.require (.inputMissing me) args[i]?

/-- A number. -/
def number (me : String) (a : Atom) : Run Float :=
  Run.require (.unsuitable .notANumber me a) a.number?

/-- A list. -/
def list (me : String) (a : Atom) : Run (List Atom) :=
  Run.require (.unsuitable .notAList me a) a.list?

/-- A word; a number is taken by its text. -/
def word (me : String) : Atom → Run String
  | .list items => Run.fail (.unsuitable .badInput me (.list items))
  | a => pure a.display

/-- A truth value. -/
def truth (me : String) (a : Atom) : Run Bool :=
  Run.require (.unsuitable .notABoolean me a) a.truth?

/-- A point, given as a list of two numbers. -/
def point (me : String) (a : Atom) : Run Point := do
  match ← list me a with
  | [x, y] =>
    let x ← number me x
    let y ← number me y
    pure ⟨x, y⟩
  | _ => Run.fail (.unsuitable .badInput me a)

/-- The number at a position. -/
def numberAt (me : String) (args : List Atom) (i : Nat) : Run Float := do
  let a ← Input.nth me args i
  number me a

/-- The list at a position. -/
def listAt (me : String) (args : List Atom) (i : Nat) : Run (List Atom) := do
  let a ← Input.nth me args i
  list me a

/-- The word at a position. -/
def wordAt (me : String) (args : List Atom) (i : Nat) : Run String := do
  let a ← Input.nth me args i
  word me a

/-- The point at a position. -/
def pointAt (me : String) (args : List Atom) (i : Nat) : Run Point := do
  let a ← Input.nth me args i
  point me a

end TurtleLogo.Input
