import TurtleLogo.Decimal.Shortest

set_option autoImplicit false

/-! # Writing a double

The digits of a double are always its shortest decimal; a `Layout` says how they are set out. -/

namespace TurtleLogo.Decimal

/-- How a double is written. -/
structure Layout where
  tie : Tie
  /-- Whether a number whose first digit stands at `10 ^ e` is written without an exponent. -/
  plain : Int → Bool
  /-- Whether a whole number written without an exponent ends in `.0`. -/
  pointZero : Bool
  nan : String
  /-- The text of an infinity; the argument says whether it is negative. -/
  infinite : Bool → String

/-- `n` zeros. -/
def zeros (n : Nat) : String :=
  String.ofList (List.replicate n '0')

/-- Writes the digits `ds · 10 ^ e` without an exponent. -/
def Layout.writePlain (l : Layout) (ds : List Char) (e : Int) : String :=
  let point := (ds.length : Int) + e
  if e ≥ 0 then String.ofList ds ++ zeros e.toNat ++ (if l.pointZero then ".0" else "")
  else if point > 0 then
    String.ofList (ds.take point.toNat) ++ "." ++ String.ofList (ds.drop point.toNat)
  else "0." ++ zeros (-point).toNat ++ String.ofList ds

/-- Writes a whole number in decimal digits. -/
def writeInt (n : Int) : String :=
  (if n < 0 then "-" else "") ++ String.ofList (Nat.toDigits 10 n.natAbs)

/-- Writes the digits `ds · 10 ^ e` with one digit before the point and a signed exponent. -/
def writeScientific (ds : List Char) (e : Int) : String :=
  let exponent := (ds.length : Int) + e - 1
  let fraction := String.ofList ds.tail
  String.ofList (ds.take 1) ++ (if fraction.isEmpty then "" else "." ++ fraction) ++ "e"
    ++ (if exponent ≥ 0 then "+" else "") ++ writeInt exponent

/-- Writes the magnitude `m · 2 ^ q`. -/
def Layout.writeMagnitude (l : Layout) (m : Nat) (q : Int) : String :=
  if m = 0 then (if l.pointZero then "0.0" else "0")
  else
    let (d, e) := shortest l.tie m q
    let ds := Nat.toDigits 10 d
    if l.plain ((ds.length : Int) + e - 1) then l.writePlain ds e else writeScientific ds e

/-- Writes a double. -/
def Layout.write (l : Layout) (x : Float) : String :=
  match parts x with
  | .nan => l.nan
  | .infinite negative => l.infinite negative
  | .finite negative m q => (if negative then "-" else "") ++ l.writeMagnitude m q

end TurtleLogo.Decimal
