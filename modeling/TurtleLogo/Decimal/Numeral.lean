import TurtleLogo.Decimal.Binary

set_option autoImplicit false

/-! # Numerals

A numeral is an optional minus, decimal digits with an optional point (at least one digit after
it, none needed before it), and an optional exponent. `Numeral.parse?` recognises whole texts of
this form; `Numeral.toFloat` is the double nearest to the number it denotes. -/

namespace TurtleLogo.Decimal

/-- A numeral taken apart: `± whole.fraction · 10 ^ exponent`. -/
structure Numeral where
  negative : Bool
  whole : List Char
  fraction : List Char
  exponent : Int

/-- The number that a row of digits denotes. -/
def digitsValue (ds : List Char) : Nat :=
  ds.foldl (fun n c => 10 * n + (c.toNat - '0'.toNat)) 0

/-- Splits off the longest row of digits. -/
def spanDigits (cs : List Char) : List Char × List Char :=
  (cs.takeWhile Char.isDigit, cs.dropWhile Char.isDigit)

/-- Reads the digits of an exponent up to the end of the text. -/
def exponentDigits? (ds : List Char) : Option Nat :=
  if !ds.isEmpty && ds.all Char.isDigit then some (digitsValue ds) else none

/-- Reads an exponent, which may be missing, up to the end of the text. -/
def exponent? : List Char → Option Int
  | [] => some 0
  | c :: cs =>
    if c = 'e' || c = 'E' then
      match cs with
      | '-' :: ds => (exponentDigits? ds).map fun n => -(n : Int)
      | '+' :: ds => (exponentDigits? ds).map fun n => (n : Int)
      | ds => (exponentDigits? ds).map fun n => (n : Int)
    else none

/-- Reads what follows the sign. -/
def Numeral.unsigned? (negative : Bool) (cs : List Char) : Option Numeral :=
  let (whole, rest) := spanDigits cs
  match rest with
  | '.' :: rest =>
    let (fraction, rest) := spanDigits rest
    if fraction.isEmpty then none
    else (exponent? rest).map fun e => ⟨negative, whole, fraction, e⟩
  | rest =>
    if whole.isEmpty then none
    else (exponent? rest).map fun e => ⟨negative, whole, [], e⟩

/-- Reads a whole text as a numeral. -/
def Numeral.parse? : List Char → Option Numeral
  | '-' :: cs => unsigned? true cs
  | cs => unsigned? false cs

/-- The double nearest to `m · 10 ^ e`. Numbers of a size that only infinity or zero is near to
are settled without computing the power. -/
def ofDecimal (m : Nat) (e : Int) : Float :=
  let size := (digitCount m : Int) + e
  if m = 0 ∨ size < -330 then 0.0
  else if size > 330 then infinity
  else Float.ofScientific m (e < 0) e.natAbs

/-- The double nearest to the number that the numeral denotes. -/
def Numeral.toFloat (n : Numeral) : Float :=
  let magnitude := ofDecimal (digitsValue (n.whole ++ n.fraction))
    (n.exponent - n.fraction.length)
  if n.negative then -magnitude else magnitude

end TurtleLogo.Decimal
