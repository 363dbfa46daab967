import TurtleLogo.Atom.Basic
import TurtleLogo.Source.Lexeme

set_option autoImplicit false

/-! # Reading a program

Lexemes are gathered into atoms, a bracketed stretch becoming a list. Reading fails only on a
bracket without a partner: the first closing one, or the last opening one. -/

namespace TurtleLogo

/-- Why a text is no program. -/
inductive ReadProblem where
  | unexpectedClosing
  | unterminatedList
  deriving DecidableEq, Repr

/-- The wording of a problem. -/
def ReadProblem.message : ReadProblem → String
  | unexpectedClosing => "Unexpected ']'"
  | unterminatedList => "Unterminated list, expected ']'"

/-- A problem and the bracket it is about. -/
structure ReadError where
  problem : ReadProblem
  place : Place
  deriving DecidableEq, Repr

/-- A list that is still open: where it was opened, and what came before it in the list around it,
latest first. -/
structure OpenList where
  place : Place
  before : List Atom

/-- Gathers lexemes into atoms. `done` are the items of the innermost open list, latest first, and
`pending` the lists around it. -/
def gather (pending : List OpenList) (done : List Atom) :
    List Lexeme → Except ReadError (List Atom)
  | [] =>
    match pending with
    | [] => .ok done.reverse
    | l :: _ => .error ⟨.unterminatedList, l.place⟩
  | .word text :: rest => gather pending (.word (String.ofList text) :: done) rest
  | .opening place :: rest => gather (⟨place, done⟩ :: pending) [] rest
  | .closing place :: rest =>
    match pending with
    | [] => .error ⟨.unexpectedClosing, place⟩
    | l :: pending => gather pending (.list done.reverse :: l.before) rest

/-- Reads a program text into its atoms. -/
def read (source : String) : Except ReadError (List Atom) :=
  gather [] [] (Lexeme.scan source.toList)

end TurtleLogo
