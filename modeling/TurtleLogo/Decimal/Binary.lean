set_option autoImplicit false

/-! # Doubles taken apart

A finite double is `± significand · 2 ^ exponent` for integers read off its bits. The operations
here that look inside a double (whether it is whole, its floor, its remainder by a whole number)
are exact integer arithmetic on those parts. -/

namespace TurtleLogo.Decimal

/-- What a double stands for. -/
inductive Parts where
  | nan
  | infinite (negative : Bool)
  /-- The number `significand · 2 ^ exponent`, negated if `negative`. -/
  | finite (negative : Bool) (significand : Nat) (exponent : Int)

/-- Reads the parts off the bits. The significand is below `2 ^ 53` and the exponent at least
`-1074`. -/
def parts (x : Float) : Parts :=
  let bits := x.toBits.toNat
  let negative := bits.testBit 63
  let field : Nat := bits / Nat.pow 2 52 % Nat.pow 2 11
  let fraction : Nat := bits % Nat.pow 2 52
  if field = 2047 then if fraction = 0 then .infinite negative else .nan
  else if field = 0 then .finite negative fraction (-1074)
  else .finite negative (Nat.pow 2 52 + fraction) ((field : Int) - 1075)

/-- The double of an integer, with the sign of zero given by `negative`. -/
def ofSigned (negative : Bool) (n : Nat) : Float :=
  if negative then -(Float.ofNat n) else Float.ofNat n

/-- Positive infinity. -/
def infinity : Float :=
  1.0 / 0.0

/-- The number of decimal digits of `n`; zero has one. -/
def digitCount (n : Nat) : Nat :=
  (Nat.toDigits 10 n).length

/-! ## Whole numbers -/

/-- Whether the double is finite and has no fractional part. -/
def isWhole (x : Float) : Bool :=
  match parts x with
  | .finite _ m q => q ≥ 0 || m % Nat.pow 2 (-q).toNat == 0
  | _ => false

/-- The magnitude with its fractional part dropped; zero for what is not finite. -/
def wholePart (x : Float) : Nat :=
  match parts x with
  | .finite _ m q => m * Nat.pow 2 q.toNat / Nat.pow 2 (-q).toNat
  | _ => 0

/-- The greatest whole number that is not above `x`. -/
def floor (x : Float) : Float :=
  if isWhole x then x else
    match parts x with
    | .finite false _ _ => ofSigned false (wholePart x)
    | .finite true _ _ => ofSigned true (wholePart x + 1)
    | _ => x

/-- The least count that is not below the magnitude of `x`; zero for what is not finite. -/
def ceilCount (x : Float) : Nat :=
  match parts x with
  | .finite _ _ _ => if isWhole x then wholePart x else wholePart x + 1
  | _ => 0

/-- The largest count that a machine word holds. -/
def maxCount : Nat :=
  Nat.pow 2 64 - 1

/-- A double as a count: the fractional part is dropped, and what lies outside `0 … maxCount`
is moved to the nearer end. -/
def toCount (x : Float) : Nat :=
  match parts x with
  | .finite false _ _ => min (wholePart x) maxCount
  | .infinite false => maxCount
  | _ => 0

/-! ## Remainder -/

/-- The exact remainder of `x` by `n > 0`, with the sign of `x`; not a number for what is not
finite. -/
def remainder (x : Float) (n : Nat) : Float :=
  match parts x with
  | .finite negative m q =>
    if q ≥ 0 then ofSigned negative (m * Nat.pow 2 q.toNat % n)
    else
      let unit := Nat.pow 2 (-q).toNat
      if m < n * unit then x
      else ofSigned negative (m % (n * unit)) / Float.ofNat unit
  | _ => 0.0 / 0.0

end TurtleLogo.Decimal
