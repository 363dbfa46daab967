import TurtleLogo.Report.Failure
import TurtleLogo.Run.Interpret

set_option autoImplicit false

/-! # Using an interpreter

What a host asks of an interpreter: to run atoms or a program text, to read and evaluate one
expression, to add procedures. -/

namespace TurtleLogo

/-- Enough fuel for any program that ends within a lifetime. It is a multiple of `jobsPerStack`, so
a job moves to a second stack only when it has filled the first. -/
def ampleFuel : Nat :=
  Nat.pow 2 50

namespace Session

/-- The engine with ample fuel. -/
def engine : Engine :=
  ⟨interpret ampleFuel, Engine.parse, ampleFuel⟩

/-- Runs a list of instructions. -/
def execute (code : List Atom) (keep : Bool) : Run (Option Atom) :=
  engine.execute code keep

/-- Evaluates an expression. -/
def force (e : Expr) : Run (Option Atom) :=
  engine.force e

/-- Evaluates an expression whose value `consumer` needs. -/
def demand (e : Expr) (consumer : String) : Run Atom :=
  engine.demand e consumer

/-- Evaluates a condition. -/
def condition (e : Expr) (consumer : String) : Run Bool :=
  engine.condition e consumer

/-- Reads and evaluates one expression. Gives the outcome and the atoms that are left, which are
known also if it fails. -/
def evaluate (atoms : List Atom) (w : World) : Outcome (Option Atom) × List Atom :=
  match parseExpr w.parseContext ⟨atoms, w.procedures⟩ with
  | .ok e s => (force e { w with procedures := s.registry }, s.atoms)
  | .fail f s => (.exit (.fault f) { w with procedures := s.registry }, s.atoms)

end Session

/-! ## Whole programs -/

/-- What an exit is to someone outside all procedures. -/
def Exit.toFault : Exit → Fault
  | fault f => f
  | output _ => { cause := .outputOutside }
  | stop => { cause := .stopOutside }

/-- How a program ended, and the state it left; none if it did not end. -/
def Outcome.result? {α : Type} : Outcome α → Option (Except Fault α × World)
  | done a w => some (.ok a, w)
  | exit e w => some (.error e.toFault, w)
  | exhausted => none

namespace Session

/-- Runs a program given as atoms. With `keep` it may leave a value. -/
def run (code : List Atom) (keep : Bool) (w : World) :
    Option (Except Fault (Option Atom) × World) :=
  (execute code keep w).result?

/-- Reads and runs a program text. With `keep` it may leave a value. -/
def runSource (source : String) (keep : Bool) (w : World) :
    Option (Except Failure (Option Atom) × World) :=
  match read source with
  | .error e => some (.error (.reading e), w)
  | .ok code => (run code keep w).map fun (result, w) => (result.mapError .running, w)

end Session

/-! ## Adding procedures -/

namespace World

/-- Adds a primitive of the host. -/
def register (w : World) (name : String) (arity : Arity) (act : List Atom → HostAction) : World :=
  { w with procedures := w.procedures.register name arity (.host act) }

/-- Adds a definition, unless a primitive has its name. -/
def install (w : World) (name : String) (d : Definition) : Except Fault World :=
  match w.procedures.install name d with
  | .ok procedures => .ok { w with procedures }
  | .error cause => .error { cause }

end World

end TurtleLogo
