import TurtleLogo.Atom.Basic
import TurtleLogo.Decimal.Layout

set_option autoImplicit false

/-! # The text of an atom

`Atom.display` is the full text, with every list in brackets; `Atom.plain` leaves out the
outermost brackets. Items of a list are separated by single spaces.

Two words are compared as numbers if both stand for one, and by their text otherwise. Lists are
equal item by item, and no list equals a word. -/

namespace TurtleLogo

/-- Numbers are written without an exponent and without a needless point. -/
def numberLayout : Decimal.Layout where
  tie := .up
  plain := fun _ => true
  pointZero := false
  nan := "NaN"
  infinite := fun negative => if negative then "-inf" else "inf"

/-- The text of a number. A whole number below `10 ^ 15` is written as an integer, so zero has no
sign. -/
def displayNumber (n : Float) : String :=
  if Decimal.isWhole n && Decimal.wholePart n < Nat.pow 10 15 then
    let size : Int := Decimal.wholePart n
    Decimal.writeInt (if n < 0.0 then -size else size)
  else numberLayout.write n

namespace Atom

mutual

/-- The full text of an atom. -/
def display : Atom → String
  | number n => displayNumber n
  | word w => w
  | list items => "[" ++ displayItems items ++ "]"

/-- The texts of several atoms, separated by single spaces. -/
def displayItems : List Atom → String
  | [] => ""
  | [a] => a.display
  | a :: b :: rest => a.display ++ " " ++ displayItems (b :: rest)

end

/-- The text of an atom without the outermost brackets. -/
def plain : Atom → String
  | list items => displayItems items
  | a => a.display

/-! ## Equality -/

/-- Equality of two atoms that are not lists. -/
def sameWord (a b : Atom) : Bool :=
  match a.number?, b.number? with
  | some x, some y => x == y
  | _, _ => a.display == b.display

mutual

/-- Equality as the language sees it. -/
def equal : Atom → Atom → Bool
  | list xs, list ys => equalItems xs ys
  | list _, _ => false
  | _, list _ => false
  | a, b => sameWord a b

/-- Equality of two lists, item by item. -/
def equalItems : List Atom → List Atom → Bool
  | [], [] => true
  | x :: xs, y :: ys => equal x y && equalItems xs ys
  | _, _ => false

end

end Atom

end TurtleLogo
