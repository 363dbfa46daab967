import TurtleLogo.Atom.Print
import TurtleLogo.Fault

set_option autoImplicit false

/-! # Infix operators

Four levels of binding: comparisons bind loosest, then sums, then products, then powers. -/

namespace TurtleLogo

/-- How tightly an operator binds. -/
inductive Level where
  | relational
  | additive
  | multiplicative
  | power
  deriving DecidableEq, Repr

/-- An infix operator. -/
inductive Operator where
  | equal
  | notEqual
  | less
  | greater
  | lessEqual
  | greaterEqual
  | add
  | subtract
  | multiply
  | divide
  | modulo
  | power
  deriving DecidableEq, Repr

namespace Operator

/-- How an operator is written. -/
def symbol : Operator → String
  | equal => "="
  | notEqual => "<>"
  | less => "<"
  | greater => ">"
  | lessEqual => "<="
  | greaterEqual => ">="
  | add => "+"
  | subtract => "-"
  | multiply => "*"
  | divide => "/"
  | modulo => "%"
  | power => "^"

/-- All operators, loosest first. -/
def all : List Operator :=
  [equal, notEqual, less, greater, lessEqual, greaterEqual, add, subtract, multiply, divide, modulo,
   power]

/-- The operator that a word writes. -/
def ofWord? (word : String) : Option Operator :=
  all.find? (·.symbol == word)

/-- The level on which an operator binds. -/
def level : Operator → Level
  | equal | notEqual | less | greater | lessEqual | greaterEqual => .relational
  | add | subtract => .additive
  | multiply | divide | modulo => .multiplicative
  | power => .power

/-- The number that an operand stands for. -/
def operand (op : Operator) (a : Atom) : Except Cause Float :=
  match a.number? with
  | some n => .ok n
  | none => .error (.unsuitable .notANumber op.symbol a)

/-- Applies an operator to two numbers. The remainder is floored: it has the sign of the
divisor. -/
def compute (op : Operator) (a b : Float) : Except Cause Atom :=
  match op with
  | equal => .ok (.ofBool (a == b))
  | notEqual => .ok (.ofBool (a != b))
  | less => .ok (.ofBool (a < b))
  | greater => .ok (.ofBool (a > b))
  | lessEqual => .ok (.ofBool (a ≤ b))
  | greaterEqual => .ok (.ofBool (a ≥ b))
  | add => .ok (.number (a + b))
  | subtract => .ok (.number (a - b))
  | multiply => .ok (.number (a * b))
  | power => .ok (.number (a.pow b))
  | divide => if b == 0.0 then .error .divisionByZero else .ok (.number (a / b))
  | modulo =>
    if b == 0.0 then .error .divisionByZero
    else .ok (.number (a - b * Decimal.floor (a / b)))

/-- Applies an operator to two atoms. Equality takes any atoms, every other operator numbers. -/
def apply (op : Operator) (a b : Atom) : Except Cause Atom :=
  match op with
  | equal => .ok (.ofBool (a.equal b))
  | notEqual => .ok (.ofBool (!a.equal b))
  | _ => do
    let x ← op.operand a
    let y ← op.operand b
    op.compute x y

end Operator

/-- Whether a word is an infix operator. -/
def isInfix (word : String) : Bool :=
  (Operator.ofWord? word).isSome

end TurtleLogo
