import TurtleLogo.Run.Input

set_option autoImplicit false

/-! # Primitives for variables and for writing lines -/

namespace TurtleLogo.Act

/-- `MAKE`: assigns a variable where it is visible. -/
def make (me : String) (args : List Atom) : Run (Option Atom) := do
  let name ← Input.wordAt me args 0
  let a ← Input.nth me args 1
  Run.modify (·.assign name a)
  pure none

/-- `LOCALMAKE`: declares a variable of the running procedure and assigns it. -/
def declareAndMake (me : String) (args : List Atom) : Run (Option Atom) := do
  let name ← Input.wordAt me args 0
  Run.onFrames (·.declareLocal name)
  let a ← Input.nth me args 1
  Run.modify (·.assign name a)
  pure none

/-- Declares variables of the running procedure, up to the first that is no word. -/
def declareAll (me : String) : List Atom → Run Unit
  | [] => pure ()
  | a :: rest => do
    let name ← Input.word me a
    Run.onFrames (·.declareLocal name)
    declareAll me rest

/-- The names in an input of `LOCAL`: the items of a list, or the input itself. -/
def declaredNames : Atom → List Atom
  | .list items => items
  | a => [a]

/-- `LOCAL`: declares variables without values. -/
def declare (me : String) (args : List Atom) : Run (Option Atom) := do
  declareAll me (args.flatMap declaredNames)
  pure none

/-- `THING`: the value of a variable. -/
def thing (me : String) (args : List Atom) : Run (Option Atom) := do
  let name ← Input.wordAt me args 0
  let w ← Run.world
  let a ← Run.require (.noValue name) (w.value? name)
  pure (some a)

/-- Writes a line of texts separated by single spaces. -/
def writeLine (texts : List String) : Run (Option Atom) := do
  Run.modify fun w => { w with lines := w.lines.push (" ".intercalate texts) }
  pure none

end TurtleLogo.Act
