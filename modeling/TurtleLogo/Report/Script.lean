import TurtleLogo.Report.Failure
import TurtleLogo.Report.Json
import TurtleLogo.Turtle.Basic

set_option autoImplicit false

/-! # Reports for programs to read

The result of a whole script as one JSON object: the state of the turtle if it completed, the
failure if it did not, and in both cases the lines it wrote. -/

namespace TurtleLogo.Report

/-- A line that was written, with the milliseconds since the start. -/
structure Entry where
  milliseconds : Nat
  message : String

/-- A written line as JSON. -/
def Entry.toJson (e : Entry) : Json :=
  .object [("timestamp_ms", .count e.milliseconds), ("message", .text e.message)]

/-- All written lines as JSON. -/
def console (entries : List Entry) : Json :=
  .array (entries.map Entry.toJson)

/-- The state of the turtle as JSON. -/
def turtle (t : Turtle) : Json :=
  .object [("x", .float t.position.x), ("y", .float t.position.y), ("heading", .float t.heading),
    ("pen_down", .flag t.penDown), ("segments", .count t.segments.size),
    ("elapsed_seconds", .float t.elapsed)]

/-- The report of a script that completed. -/
def completed (t : Turtle) (milliseconds : Nat) (entries : List Entry) : Json :=
  .object [("type", .text "script"), ("status", .text "complete"),
    ("duration_ms", .count milliseconds), ("turtle", turtle t), ("console", console entries)]

/-- A place as JSON. -/
def place (p : Place) : Json :=
  .object [("line", .count p.line), ("column", .count p.column)]

/-- The report of a failure; `stack` is given outermost first and reported innermost first. -/
def failed (kind message : String) (at? : Option Place) (stack : List String)
    (entries : List Entry) : Json :=
  .object ([("type", .text "error"), ("kind", .text kind), ("message", .text message)]
    ++ (at?.map fun p => ("location", place p)).toList
    ++ [("stack", .array (stack.reverse.map .text)), ("console", console entries)])

/-- The report of a script that failed. -/
def failure (entries : List Entry) : Failure → Json
  | .reading e => failed "Read" e.message (some e.place) [] entries
  | .running f => failed f.cause.kind.name f.cause.message none f.stack entries

end TurtleLogo.Report
