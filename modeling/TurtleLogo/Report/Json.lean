import TurtleLogo.Decimal.Layout

set_option autoImplicit false

/-! # JSON text

The values that reports are made of, and their text: no blanks, members in the order given. -/

namespace TurtleLogo

/-- A JSON value. -/
inductive Json where
  | text (s : String)
  | count (n : Nat)
  | float (x : Float)
  | flag (b : Bool)
  | array (items : List Json)
  | object (members : List (String × Json))

namespace Json

/-- A float has at least one digit after the point, and an exponent from `10 ^ 16` on and below
`10 ^ -5`. What is no finite number is `null`. -/
def floatLayout : Decimal.Layout where
  tie := .even
  plain := fun e => -5 ≤ e && e < 16
  pointZero := true
  nan := "null"
  infinite := fun _ => "null"

/-- A hexadecimal digit in lower case. -/
def hexDigit (n : Nat) : Char :=
  (Nat.toDigits 16 n).headD '0'

/-- How a character stands in a string. -/
def escape (c : Char) : List Char :=
  if c = '"' then ['\\', '"']
  else if c = '\\' then ['\\', '\\']
  else if c.toNat = 0x08 then ['\\', 'b']
  else if c.toNat = 0x0C then ['\\', 'f']
  else if c = '\n' then ['\\', 'n']
  else if c = '\r' then ['\\', 'r']
  else if c = '\t' then ['\\', 't']
  else if c.toNat < 0x20 then
    ['\\', 'u', '0', '0', hexDigit (c.toNat / 16), hexDigit (c.toNat % 16)]
  else [c]

/-- A string in quotation marks. -/
def quote (s : String) : String :=
  "\"" ++ String.ofList (s.toList.flatMap escape) ++ "\""

mutual

/-- The text of a value. -/
def write : Json → String
  | text s => quote s
  | count n => String.ofList (Nat.toDigits 10 n)
  | float x => floatLayout.write x
  | flag b => if b then "true" else "false"
  | array items => "[" ++ writeItems items ++ "]"
  | object members => "\x7b" ++ writeMembers members ++ "\x7d"

/-- The texts of several values, separated by commas. -/
def writeItems : List Json → String
  | [] => ""
  | [j] => j.write
  | j :: k :: rest => j.write ++ "," ++ writeItems (k :: rest)

/-- The texts of several members, separated by commas. -/
def writeMembers : List (String × Json) → String
  | [] => ""
  | [(key, j)] => quote key ++ ":" ++ j.write
  | (key, j) :: m :: rest => quote key ++ ":" ++ j.write ++ "," ++ writeMembers (m :: rest)

end

end Json

end TurtleLogo
