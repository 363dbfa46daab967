import TurtleLogo.Fault
import TurtleLogo.Source.Read
import TurtleLogo.Text.Basic

set_option autoImplicit false

/-! # Failures for people to read

A program fails while it is read or while it runs. A reading failure is shown with the lines around
it and a caret below the offending column, a running failure with the procedures it happened in. -/

namespace TurtleLogo

/-- Why a program text has no result. -/
inductive Failure where
  | reading (e : ReadError)
  | running (f : Fault)

namespace Report

/-- A count in decimal digits. -/
def digits (n : Nat) : String :=
  String.ofList (Nat.toDigits 10 n)

/-- `n` spaces. -/
def spaces (n : Nat) : String :=
  String.ofList (List.replicate n ' ')

/-! ## One line -/

/-- A message with the place it is about. -/
def located (message : String) (place : Place) : String :=
  message ++ " at line " ++ digits place.line ++ ", column " ++ digits place.column

/-- A reading failure in one line. -/
def readingLine (message : String) (place : Place) : String :=
  "Read error at line " ++ digits place.line ++ ", column " ++ digits place.column ++ ": " ++
    message

/-- A running failure in one line; the message may name a procedure. -/
def runningLine (message : String) : String :=
  "Runtime error: " ++ message

/-! ## With context -/

/-- A line number, padded to four columns. -/
def lineNumber (n : Nat) : String :=
  let ds := digits n
  spaces (4 - ds.length) ++ ds

/-- One line of the source; the line at fault is marked and has a caret below it. -/
def contextLine (place : Place) (number : Nat) (line : String) : String :=
  if number = max place.line 1 then
    " → " ++ lineNumber number ++ " | " ++ line ++ "\n" ++ "        | " ++ spaces (place.column - 1)
      ++ "^\n"
  else "   " ++ lineNumber number ++ " | " ++ line ++ "\n"

/-- Numbers lines from `n` on. -/
def numbered (n : Nat) : List String → List (Nat × String)
  | [] => []
  | line :: rest => (n, line) :: numbered (n + 1) rest

/-- The line at fault with two lines before it and two after it. -/
def context (place : Place) (source : String) : String :=
  let index := place.line - 1
  let shown := ((numbered 1 (Text.lines source)).take (index + 3)).drop (index - 2)
  String.join (shown.map fun (n, line) => contextLine place n line)

/-- A reading failure with the lines around it. -/
def reading (message : String) (place : Place) (source : String) : String :=
  "\n" ++ readingLine message place ++ "\n\n" ++ context place source

/-- One line of a stack trace. -/
def traceLine (number : Nat) (name : String) : String :=
  "  " ++ digits number ++ " in " ++ name ++ "\n"

/-- The running procedures, innermost first, each with its number. -/
def trace (names : List String) : String :=
  String.join ((numbered 0 names).map fun (n, name) => traceLine n name)

/-- A running failure with the running procedures, which are given outermost first. -/
def running (message : String) (stack : List String) : String :=
  "\n" ++ runningLine message ++ "\n"
    ++ (if stack.isEmpty then "" else "\nStack trace:\n" ++ trace stack.reverse)

end Report

namespace ReadError

/-- The wording of the problem. -/
def message (e : ReadError) : String :=
  e.problem.message

/-- The problem with its place. -/
def display (e : ReadError) : String :=
  Report.located e.message e.place

end ReadError

namespace Failure

/-- A failure in one line. -/
def display : Failure → String
  | reading e => Report.readingLine e.message e.place
  | running f => Report.runningLine f.display

/-- A failure with its context in the source. -/
def report (source : String) : Failure → String
  | reading e => Report.reading e.message e.place source
  | running f => Report.running f.cause.message f.stack

end Failure

end TurtleLogo
