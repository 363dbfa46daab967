import TurtleLogo.Decimal.Binary

set_option autoImplicit false

/-! # The shortest decimal of a double

A double is the nearest one to every real number of its rounding interval. Among the decimals in
that interval `shortest` picks one with the fewest digits, and of those the nearest to the double
itself. The search runs over the decimal grids with 1, 2, …, 17 digits; on each grid only the two
neighbours of the double can be the answer. -/

namespace TurtleLogo.Decimal

/-- Which of two decimals equally near to a double is taken. -/
inductive Tie where
  | up
  | even

/-- A rounding interval over a common denominator: the double is `value / unit`. -/
structure Interval where
  unit : Nat
  low : Nat
  value : Nat
  high : Nat
  /-- Whether the two ends belong to the interval. -/
  closed : Bool

/-- The rounding interval of `m · 2 ^ q`. The gap below is half as wide at a power of two, and
the ends round to even significands. -/
def Interval.of (m : Nat) (q : Int) : Interval :=
  let scale := Nat.pow 2 (q - 2).toNat
  let below := if m = Nat.pow 2 52 ∧ q > -1074 then 1 else 2
  { unit := Nat.pow 2 (2 - q).toNat,
    low := (4 * m - below) * scale,
    value := 4 * m * scale,
    high := (4 * m + 2) * scale,
    closed := m % 2 == 0 }

/-- The same interval in units of `10 ^ e`. -/
def Interval.inPowersOfTen (i : Interval) (e : Int) : Interval :=
  let up := Nat.pow 10 (-e).toNat
  { i with
    unit := i.unit * Nat.pow 10 e.toNat
    low := i.low * up
    value := i.value * up
    high := i.high * up }

/-- Whether the whole number `d` lies in the interval. -/
def Interval.has (i : Interval) (d : Nat) : Bool :=
  if i.closed then i.low ≤ d * i.unit && d * i.unit ≤ i.high
  else i.low < d * i.unit && d * i.unit < i.high

/-- The whole number of the interval that is nearest to its double, if there is any. -/
def Interval.nearest? (tie : Tie) (i : Interval) : Option Nat :=
  let d := i.value / i.unit
  let excess := i.value % i.unit
  match i.has d, i.has (d + 1) with
  | false, false => none
  | true, false => some d
  | false, true => some (d + 1)
  | true, true =>
    if 2 * excess < i.unit then some d
    else if 2 * excess > i.unit then some (d + 1)
    else match tie with
      | .up => some (d + 1)
      | .even => some (if d % 2 = 0 then d else d + 1)

/-- How many zeros follow the point of `num / den < 1` before the first other digit, as far as
`fuel` allows. -/
def leadingZeros (num den : Nat) : Nat → Nat
  | 0 => 0
  | fuel + 1 => if num * 10 ≥ den then 0 else leadingZeros (num * 10) den fuel + 1

/-- The position of the first digit: the least `k` with `value / unit < 10 ^ k`. A double has at
most 323 zeros after the point. -/
def Interval.magnitude (i : Interval) : Int :=
  if i.value ≥ i.unit then digitCount (i.value / i.unit)
  else -(leadingZeros i.value i.unit 324 : Nat)

/-- Searches the grids of `n`, `n + 1`, … digits for the first with a hit; `k` is the position of
the first digit. -/
def search (tie : Tie) (i : Interval) (k : Int) (n : Nat) : Nat → Nat × Int
  | 0 => (i.value / i.unit, 0)
  | fuel + 1 =>
    match (i.inPowersOfTen (k - n)).nearest? tie with
    | some d => (d, k - n)
    | none => search tie i k (n + 1) fuel

/-- Moves trailing zeros of `d · 10 ^ e` into the exponent. -/
def dropZeros (d : Nat) (e : Int) : Nat → Nat × Int
  | 0 => (d, e)
  | fuel + 1 => if d % 10 = 0 then dropZeros (d / 10) (e + 1) fuel else (d, e)

/-- The shortest decimal `d · 10 ^ e` of the double `m · 2 ^ q` with `m > 0`, as `(d, e)`. -/
def shortest (tie : Tie) (m : Nat) (q : Int) : Nat × Int :=
  let i := Interval.of m q
  let (d, e) := search tie i i.magnitude 1 17
  dropZeros d e 17

end TurtleLogo.Decimal
