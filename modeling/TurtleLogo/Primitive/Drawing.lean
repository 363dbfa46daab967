import TurtleLogo.Run.Input

set_option autoImplicit false

/-! # Primitives that drive the turtle -/

namespace TurtleLogo.Act

/-- Does something to the turtle and has no value. -/
def drive (f : Turtle → Turtle) : Run (Option Atom) := do
  Run.onTurtle f
  pure none

/-- The value of something about the turtle. -/
def report (f : Turtle → Atom) : Run (Option Atom) := do
  let w ← Run.world
  pure (some (f w.turtle))

/-- Drives the turtle by a number. -/
def driveBy (me : String) (args : List Atom) (f : Float → Turtle → Turtle) :
    Run (Option Atom) := do
  let n ← Input.numberAt me args 0
  drive (f n)

/-- Drives the turtle by two numbers. -/
def driveByTwo (me : String) (args : List Atom) (f : Float → Float → Turtle → Turtle) :
    Run (Option Atom) := do
  let m ← Input.numberAt me args 0
  let n ← Input.numberAt me args 1
  drive (f m n)

/-- Goes to a point given as a list. -/
def setPosition (me : String) (args : List Atom) : Run (Option Atom) := do
  let p ← Input.pointAt me args 0
  drive (·.moveTo p)

/-- The heading to a point given as a list. -/
def towards (me : String) (args : List Atom) : Run (Option Atom) := do
  let p ← Input.pointAt me args 0
  report fun t => .number (t.towards p)

/-- Takes a colour, which may be any atom. -/
def setColor (me : String) (args : List Atom) : Run (Option Atom) := do
  let color ← Input.nth me args 0
  drive (·.setColor color)

/-- The sound of `BEEP`. -/
def beepTone : Tone :=
  ⟨5300.0, 0.3⟩

end TurtleLogo.Act
