import TurtleLogo.Atom.Print

set_option autoImplicit false

/-! # Faults

A run can fail for the reasons listed in `Cause`. Each has a kind, which hosts tell apart, and a
wording. A fault is a cause together with the chain of procedures that were running, and one of the
ways in which a run ends early. -/

namespace TurtleLogo

/-- The kinds of fault. -/
inductive FaultKind where
  | undefinedProcedure
  | arity
  | notANumber
  | notAList
  | notABoolean
  | divideByZero
  | badInput
  | badDefinition
  | redefinePrimitive
  | unboundVariable
  | unexpectedResult
  | noOutput
  | malformed
  | notImplemented
  | depthExceeded
  | aborted
  | outsideProcedure
  deriving DecidableEq, Repr

/-- The name of a kind in reports. -/
def FaultKind.name : FaultKind → String
  | undefinedProcedure => "UndefinedProcedure"
  | arity => "Arity"
  | notANumber => "NotANumber"
  | notAList => "NotAList"
  | notABoolean => "NotABoolean"
  | divideByZero => "DivideByZero"
  | badInput => "BadInput"
  | badDefinition => "BadDefinition"
  | redefinePrimitive => "RedefinePrimitive"
  | unboundVariable => "UnboundVariable"
  | unexpectedResult => "UnexpectedResult"
  | noOutput => "NoOutput"
  | malformed => "Syntax"
  | notImplemented => "NotImplemented"
  | depthExceeded => "DepthExceeded"
  | aborted => "Aborted"
  | outsideProcedure => "OutsideProcedure"

/-- All kinds. -/
def FaultKind.all : List FaultKind :=
  [undefinedProcedure, arity, notANumber, notAList, notABoolean, divideByZero, badInput,
   badDefinition, redefinePrimitive, unboundVariable, unexpectedResult, noOutput, malformed,
   notImplemented, depthExceeded, aborted, outsideProcedure]

/-- Why a run fails. -/
inductive Cause where
  /-- No procedure has this name. -/
  | unknownProcedure (name : String)
  /-- A call supplies too few inputs. -/
  | notEnoughInputs (procedure : String)
  /-- A call supplies too many inputs. -/
  | tooManyInputs (procedure : String)
  /-- A primitive is run with fewer inputs than it looks at. No call that was read from program
  text does that. -/
  | inputMissing (procedure : String)
  /-- A value is not of the kind that its consumer needs. -/
  | unsuitable (kind : FaultKind) (consumer : String) (value : Atom)
  | divisionByZero
  /-- `IFTRUE` or `IFFALSE` before any `TEST`. -/
  | testMissing (procedure : String)
  /-- A variable has no value. -/
  | noValue (name : String)
  /-- An instruction leaves a value that nothing takes. -/
  | unusedValue (value : Atom)
  /-- What should supply an input has no value. -/
  | noOutput (producer consumer : String)
  /-- The default expression of an optional input has no value. -/
  | defaultWithoutValue (input : String)
  /-- The test of a `COND` clause has no value. -/
  | clauseWithoutValue
  /-- The instructions end where an expression should stand. -/
  | endOfInstructions
  | strayClosing
  | closingExpected
  | closingExpectedAfter (procedure : String)
  /-- `TO` is followed by nothing. -/
  | nameMissing
  /-- The declared number of inputs does not fit the header. -/
  | badInputCount (name : String)
  /-- A definition is not closed. -/
  | endExpected (name : String)
  /-- A definition would replace a primitive. -/
  | redefinition (primitive : String)
  /-- More calls are nested than the limit allows. -/
  | tooDeep (limit : Nat)
  /-- The host has asked the program to stop. -/
  | aborted
  | outputOutside
  | stopOutside
  /-- A fault of a host's own making. -/
  | host (kind : FaultKind) (message : String)

namespace Cause

/-- The kind of a cause. -/
def kind : Cause → FaultKind
  | unknownProcedure _ => .undefinedProcedure
  | notEnoughInputs _ | tooManyInputs _ | inputMissing _ => .arity
  | unsuitable kind _ _ => kind
  | divisionByZero => .divideByZero
  | testMissing _ => .badInput
  | noValue _ => .unboundVariable
  | unusedValue _ => .unexpectedResult
  | noOutput _ _ | defaultWithoutValue _ | clauseWithoutValue => .noOutput
  | endOfInstructions | strayClosing | closingExpected | closingExpectedAfter _ => .malformed
  | nameMissing | badInputCount _ | endExpected _ => .badDefinition
  | redefinition _ => .redefinePrimitive
  | tooDeep _ => .depthExceeded
  | aborted => .aborted
  | outputOutside | stopOutside => .outsideProcedure
  | host kind _ => kind

/-- The wording of a cause. -/
def message : Cause → String
  | unknownProcedure name => s!"I don't know how to {name}"
  | notEnoughInputs name | inputMissing name => s!"Not enough inputs to {name}"
  | tooManyInputs name => s!"Too many inputs to {name}"
  | unsuitable _ consumer value => consumer ++ " doesn't like " ++ value.display ++ " as input"
  | divisionByZero => "Division by zero"
  | testMissing name => s!"{name} without TEST"
  | noValue name => s!"{name} has no value"
  | unusedValue value => "You don't say what to do with " ++ value.display
  | noOutput producer consumer => s!"{producer} didn't output to {consumer}"
  | defaultWithoutValue input => s!"Default for :{input} didn't output a value"
  | clauseWithoutValue => "COND clause test produced no value"
  | endOfInstructions => "Unexpected end of instructions"
  | strayClosing => "Unexpected ')'"
  | closingExpected => "Expected ')'"
  | closingExpectedAfter name => s!"Expected ')' after inputs to {name}"
  | nameMissing => "Not enough inputs to TO"
  | badInputCount name => s!"Bad default number of inputs for {name}"
  | endExpected name => s!"Expected END in definition of {name}"
  | redefinition name => s!"{name} is a primitive"
  | tooDeep limit => s!"Too many nested calls (limit {limit})"
  | aborted => "Stopping..."
  | outputOutside => "output can only be used inside a procedure"
  | stopOutside => "stop can only be used inside a procedure"
  | host _ message => message

end Cause

/-- A failure of a run. -/
structure Fault where
  cause : Cause
  /-- The procedures that were running, outermost first; empty if not recorded. -/
  stack : List String := []

namespace Fault

/-- Records the running procedures, given outermost first, unless that has been done. -/
def record (f : Fault) (calls : Array String) : Fault :=
  if f.stack.isEmpty then { f with stack := calls.toList } else f

/-- The innermost procedure that was running. -/
def procedure? (f : Fault) : Option String :=
  f.stack.getLast?

/-- The wording of a fault with the procedure it happened in. -/
def display (f : Fault) : String :=
  match f.procedure? with
  | some name => f.cause.message ++ " (in " ++ name ++ ")"
  | none => f.cause.message

end Fault

/-- What ends an instruction early: a fault, or the exit from a procedure that `OUTPUT` or `STOP`
asks for. -/
inductive Exit where
  | fault (f : Fault)
  | output (value : Atom)
  | stop

end TurtleLogo
