import TurtleLogo.Primitive.Choice
import TurtleLogo.Primitive.Drawing
import TurtleLogo.Primitive.Iteration
import TurtleLogo.Primitive.Variables

set_option autoImplicit false

/-! # What each primitive does -/

namespace TurtleLogo

/-- `RUN`: runs a list, or a word by itself. -/
def Act.run (eng : Engine) (me : String) (args : List Atom) : Run (Option Atom) := do
  match ← Input.nth me args 0 with
  | .list items => eng.execute items true
  | a => eng.execute [a] true

/-- `OUTPUT`: ends the running definition with a value. -/
def Act.output (me : String) (args : List Atom) : Run (Option Atom) := do
  let a ← Input.nth me args 0
  Run.exit (.output a)

/-- `REPCOUNT`: the repetition counter. -/
def Act.repcount : Run (Option Atom) := do
  let w ← Run.world
  pure (some (.number (Float.ofNat w.repcount)))

/-- Runs a primitive on the values of its inputs; `me` is the name under which it was called. -/
def Primitive.apply (eng : Engine) (me : String) (p : Primitive) (args : List Atom) :
    Run (Option Atom) :=
  match p with
  | forward => Act.driveBy me args fun d t => t.forward d
  | back => Act.driveBy me args fun d t => t.forward (-d)
  | left => Act.driveBy me args fun d t => t.turn (-d)
  | right => Act.driveBy me args fun d t => t.turn d
  | setPosition => Act.setPosition me args
  | setXY => Act.driveByTwo me args fun x y t => t.moveTo ⟨x, y⟩
  | setX => Act.driveBy me args fun x t => t.moveTo ⟨x, t.position.y⟩
  | setY => Act.driveBy me args fun y t => t.moveTo ⟨t.position.x, y⟩
  | setHeading => Act.driveBy me args fun a t => t.setHeading a
  | home => Act.drive (·.home)
  | arc => Act.driveByTwo me args fun angle radius t => t.arc angle radius
  | position => Act.report fun t => .list [.number t.position.x, .number t.position.y]
  | xCoordinate => Act.report fun t => .number t.position.x
  | yCoordinate => Act.report fun t => .number t.position.y
  | heading => Act.report fun t => .number t.heading
  | towards => Act.towards me args
  | clearScreen => Act.drive (·.clear)
  | penDown => Act.drive (·.setPen true)
  | penUp => Act.drive (·.setPen false)
  | isPenDown => Act.report fun t => .ofBool t.penDown
  | isButton => Act.report fun t => .ofBool t.button
  | setColor => Act.setColor me args
  | hideTurtle => pure none
  | showTurtle => pure none
  | wait => Act.driveBy me args fun s t => t.wait s
  | beep => Act.drive (·.sound Act.beepTone)
  | repeatTimes => Act.repeatTimes eng me args
  | forever => Act.forever eng me args
  | repcount => Act.repcount
  | forRange => Act.forRange eng me args
  | doTimes => Act.doTimes eng me args
  | ifElse => Act.ifElse eng me args
  | test => Act.test eng me args
  | ifTrue => Act.ifTest eng me true args
  | ifFalse => Act.ifTest eng me false args
  | caseOf => Act.caseOf eng me args
  | condClauses => Act.condClauses eng me args
  | run => Act.run eng me args
  | output => Act.output me args
  | stop => Run.exit .stop
  | make => Act.make me args
  | declare => Act.declare me args
  | declareAndMake => Act.declareAndMake me args
  | thing => Act.thing me args
  | showLine => Act.writeLine (args.map Atom.display)
  | printLine => Act.writeLine (args.map Atom.plain)
  | yes => pure (some (.ofBool true))
  | no => pure (some (.ofBool false))
  | negation => Act.negation me args
  | exclusiveOr => Act.exclusiveOr me args

/-- Runs a primitive on its unevaluated inputs. -/
def Deferred.apply (eng : Engine) (me : String) (p : Deferred) (args : List Expr) :
    Run (Option Atom) :=
  match p, args with
  | whileLoop, test :: body :: _ => Act.testedLoop eng me true test body
  | untilLoop, test :: body :: _ => Act.testedLoop eng me false test body
  | doWhile, body :: test :: _ => Act.postTestedLoop eng me true test body
  | doUntil, body :: test :: _ => Act.postTestedLoop eng me false test body
  | conjunction, args => Act.untilDecisive eng me false args
  | disjunction, args => Act.untilDecisive eng me true args
  | _, _ => Run.fail (.inputMissing me)

end TurtleLogo
