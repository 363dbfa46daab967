import TurtleLogo.Arity

set_option autoImplicit false

/-! # The primitives

The procedures that every interpreter has. `Primitive` lists those that are given the values of
their inputs, `Deferred` those that are given the inputs unevaluated and decide themselves when to
evaluate them. -/

namespace TurtleLogo

/-- A primitive that takes the values of its inputs. -/
inductive Primitive where
  | forward | back | left | right
  | setPosition | setXY | setX | setY | setHeading | home | arc
  | position | xCoordinate | yCoordinate | heading | towards
  | clearScreen | penDown | penUp | isPenDown | isButton | setColor | hideTurtle | showTurtle
  | wait | beep
  | repeatTimes | forever | repcount | forRange | doTimes
  | ifElse | test | ifTrue | ifFalse | caseOf | condClauses
  | run | output | stop
  | make | declare | declareAndMake | thing | showLine | printLine
  | yes | no | negation | exclusiveOr
  deriving DecidableEq, Repr

/-- A primitive that takes its inputs unevaluated. -/
inductive Deferred where
  | whileLoop | untilLoop | doWhile | doUntil | conjunction | disjunction
  deriving DecidableEq, Repr

/-- The spellings of each primitive that takes values, and its inputs. -/
def Primitive.catalogue : List (List String × Arity × Primitive) :=
  [(["forward", "fd"], .fixed 1, .forward),
   (["back", "bk"], .fixed 1, .back),
   (["left", "lt"], .fixed 1, .left),
   (["right", "rt"], .fixed 1, .right),
   (["setpos"], .fixed 1, .setPosition),
   (["setxy"], .fixed 2, .setXY),
   (["setx"], .fixed 1, .setX),
   (["sety"], .fixed 1, .setY),
   (["setheading", "seth"], .fixed 1, .setHeading),
   (["home"], .fixed 0, .home),
   (["arc"], .fixed 2, .arc),
   (["pos"], .fixed 0, .position),
   (["xcor"], .fixed 0, .xCoordinate),
   (["ycor"], .fixed 0, .yCoordinate),
   (["heading"], .fixed 0, .heading),
   (["towards"], .fixed 1, .towards),
   (["clearscreen", "cs"], .fixed 0, .clearScreen),
   (["pendown", "pd"], .fixed 0, .penDown),
   (["penup", "pu"], .fixed 0, .penUp),
   (["pendownp", "pendown?"], .fixed 0, .isPenDown),
   (["buttonp", "button?", "button"], .fixed 0, .isButton),
   (["setpencolor", "setpc", "setcolor"], .fixed 1, .setColor),
   (["hideturtle", "ht"], .fixed 0, .hideTurtle),
   (["showturtle", "st"], .fixed 0, .showTurtle),
   (["wait"], .fixed 1, .wait),
   (["beep"], .fixed 0, .beep),
   (["repeat"], .fixed 2, .repeatTimes),
   (["forever"], .fixed 1, .forever),
   (["repcount", "#"], .fixed 0, .repcount),
   (["if"], .between 2 2 3, .ifElse),
   (["ifelse"], .fixed 3, .ifElse),
   (["test"], .fixed 1, .test),
   (["iftrue", "ift"], .fixed 1, .ifTrue),
   (["iffalse", "iff"], .fixed 1, .ifFalse),
   (["for"], .fixed 2, .forRange),
   (["dotimes"], .fixed 2, .doTimes),
   (["case"], .fixed 2, .caseOf),
   (["cond"], .fixed 1, .condClauses),
   (["run"], .fixed 1, .run),
   (["output", "op"], .fixed 1, .output),
   (["stop"], .fixed 0, .stop),
   (["make"], .fixed 2, .make),
   (["local"], .unbounded 1 1, .declare),
   (["localmake"], .fixed 2, .declareAndMake),
   (["thing"], .fixed 1, .thing),
   (["show"], .unbounded 1 0, .showLine),
   (["print"], .unbounded 1 0, .printLine),
   (["true"], .fixed 0, .yes),
   (["false"], .fixed 0, .no),
   (["not"], .fixed 1, .negation),
   (["xor"], .unbounded 2 0, .exclusiveOr)]

/-- The spellings of each primitive that takes unevaluated inputs, and its inputs. -/
def Deferred.catalogue : List (List String × Arity × Deferred) :=
  [(["while"], .fixed 2, .whileLoop),
   (["until"], .fixed 2, .untilLoop),
   (["do.while"], .fixed 2, .doWhile),
   (["do.until"], .fixed 2, .doUntil),
   (["and"], .unbounded 2 0, .conjunction),
   (["or"], .unbounded 2 0, .disjunction)]

end TurtleLogo
