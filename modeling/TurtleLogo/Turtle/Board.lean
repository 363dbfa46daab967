import TurtleLogo.Atom.Basic

set_option autoImplicit false

/-! # The board of the turtle

A few variables are wired to the board: whatever is assigned to them shows there too. -/

namespace TurtleLogo

/-- A variable that is wired to the board. -/
inductive BoardVariable where
  | leftLed
  | rightLed
  | emitter
  | rgbLed
  deriving DecidableEq, Repr

namespace BoardVariable

/-- All wired variables. -/
def all : List BoardVariable :=
  [leftLed, rightLed, emitter, rgbLed]

/-- The spelling under which a variable is known to the board. -/
def name : BoardVariable → String
  | leftLed => "leftLED"
  | rightLed => "rightLED"
  | emitter => "emitter"
  | rgbLed => "rgbLED"

/-- The wired variable of a name, whatever the case of its ASCII letters. -/
def ofName? (name : String) : Option BoardVariable :=
  all.find? fun v => Text.sameAscii v.name name

end BoardVariable

/-- What was last written to each wired variable. -/
structure Board where
  leftLed : Option Atom := none
  rightLed : Option Atom := none
  emitter : Option Atom := none
  rgbLed : Option Atom := none

namespace Board

/-- What was last written to a variable. -/
def get? (b : Board) : BoardVariable → Option Atom
  | .leftLed => b.leftLed
  | .rightLed => b.rightLed
  | .emitter => b.emitter
  | .rgbLed => b.rgbLed

/-- Writes to a variable. -/
def set (b : Board) (v : BoardVariable) (a : Atom) : Board :=
  match v with
  | .leftLed => { b with leftLed := some a }
  | .rightLed => { b with rightLed := some a }
  | .emitter => { b with emitter := some a }
  | .rgbLed => { b with rgbLed := some a }

/-- Writes to the variable of a name, if that name is wired. -/
def assign (b : Board) (name : String) (a : Atom) : Board :=
  match BoardVariable.ofName? name with
  | some v => b.set v a
  | none => b

end Board

theorem Board.get?_set (b : Board) (v u : BoardVariable) (a : Atom) :
    (b.set v a).get? u = if u = v then some a else b.get? u := by
  cases v <;> cases u <;> rfl

end TurtleLogo
