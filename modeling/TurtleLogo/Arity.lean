set_option autoImplicit false

/-! # Numbers of inputs

A call without parentheses takes the natural number of inputs of its procedure; a call in
parentheses may take any number within the bounds. -/

namespace TurtleLogo

/-- How many inputs a procedure takes. -/
structure Arity where
  /-- Inputs of a call without parentheses. -/
  natural : Nat
  /-- Fewest inputs of a call in parentheses. -/
  least : Nat
  /-- Most inputs of a call in parentheses, if there is a bound. -/
  most : Option Nat
  deriving DecidableEq, Repr

namespace Arity

/-- Exactly `n` inputs. -/
def fixed (n : Nat) : Arity :=
  ⟨n, n, some n⟩

/-- Naturally `n` inputs, and any number from `least` on. -/
def unbounded (n least : Nat) : Arity :=
  ⟨n, least, none⟩

/-- Naturally `n` inputs, and any number from `least` to `most`. -/
def between (n least most : Nat) : Arity :=
  ⟨n, least, some most⟩

/-- Whether a call in parentheses may have `count` inputs. -/
def accepts (a : Arity) (count : Nat) : Bool :=
  a.least ≤ count && a.most.all (count ≤ ·)

end Arity

end TurtleLogo
