import TurtleLogo.Decimal.Numeral
import TurtleLogo.Text.Case

set_option autoImplicit false

/-! # Atoms

The one kind of value in the language, for data and program alike: a number, a word or a list of
atoms. Reading gives words and lists only; a word that is a numeral becomes a number where a
number is asked for. -/

namespace TurtleLogo

/-- A value of the language. -/
inductive Atom where
  | number (value : Float)
  | word (text : String)
  | list (items : List Atom)
  deriving Inhabited

/-- Whether the whole word is a numeral. -/
def isNumeral (text : String) : Bool :=
  (Decimal.Numeral.parse? text.toList).isSome

/-- The number that a numeral denotes. -/
def numeral? (text : String) : Option Float :=
  (Decimal.Numeral.parse? text.toList).map Decimal.Numeral.toFloat

namespace Atom

/-- The atom for a truth value: one or zero. -/
def ofBool (b : Bool) : Atom :=
  .number (if b then 1.0 else 0.0)

/-- The number that an atom stands for: itself, or the value of a numeral. -/
def number? : Atom → Option Float
  | number n => some n
  | word w => numeral? w
  | list _ => none

/-- The text of a word that is not stored as a number. -/
def word? : Atom → Option String
  | word w => some w
  | _ => none

/-- The items of a list. -/
def list? : Atom → Option (List Atom)
  | list items => some items
  | _ => none

/-- Whether the atom is the word `keyword` up to the case of ASCII letters. -/
def isKeyword (keyword : String) : Atom → Bool
  | word w => Text.sameAscii w keyword
  | _ => false

/-- Whether the atom is exactly the word `text`. -/
def isWord (text : String) : Atom → Bool
  | word w => w == text
  | _ => false

/-- The truth value of a condition: numbers are true unless zero, and the words `true` and `false`
speak for themselves. Anything else has none. -/
def truth? (a : Atom) : Option Bool :=
  match a.number? with
  | some n => some (n != 0.0)
  | none =>
    if a.isKeyword "true" then some true
    else if a.isKeyword "false" then some false
    else none

end Atom

end TurtleLogo
