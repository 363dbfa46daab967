import TurtleLogo.Text.Basic
import TurtleLogo.Text.CaseTable

set_option autoImplicit false

/-! # Letter case

`lower` and `upper` are the full Unicode mappings of a text: a character may become several, and a
capital sigma at the end of a word becomes the final form. `sameAscii` compares two texts up to
the case of ASCII letters only. -/

namespace TurtleLogo.Text

/-! ## Single characters -/

/-- The character that the code point `n` maps to, if one of the `runs` covers it. -/
def shiftBy (runs : List CaseRun) (n : Nat) : Option Char :=
  (runs.find? (·.covers n)).map fun r => Char.ofNat ((n : Int) + r.shift).toNat

/-- The case form of one character above ASCII: an expansion, a shifted character or itself. -/
def convert (expansions : List (Nat × List Nat)) (runs : List CaseRun) (c : Char) : List Char :=
  match expansions.lookup c.toNat with
  | some cs => cs.map Char.ofNat
  | none => [(shiftBy runs c.toNat).getD c]

/-- The lower-case form of a character that stands alone. -/
def lowerChar (c : Char) : List Char :=
  if c.toNat < 0x80 then [c.toLower] else convert lowerExpansions lowerRuns c

/-- The upper-case form of a character. -/
def upperChar (c : Char) : List Char :=
  if c.toNat < 0x80 then [c.toUpper] else convert upperExpansions upperRuns c

/-! ## Sigma -/

/-- Whether the first character of `cs` that is not skipped is a letter with case. -/
def letterFirst : List Char → Bool
  | [] => false
  | c :: cs =>
    if inRanges caseIgnorableRanges c.toNat then letterFirst cs else inRanges casedRanges c.toNat

/-- The lower-case form of a capital sigma between `before` (nearest character first) and
`after`: final when a letter precedes it and none follows. -/
def lowerSigma (before after : List Char) : Char :=
  if letterFirst before && !letterFirst after then 'ς' else 'σ'

/-! ## Texts -/

/-- The lower-case form of `cs`, which follows the characters `before` (nearest first). -/
def lowerFrom (before : List Char) : List Char → List Char
  | [] => []
  | c :: cs =>
    (if c = 'Σ' then [lowerSigma before cs] else lowerChar c) ++ lowerFrom (c :: before) cs

/-- The lower-case form of a text. -/
def lower (s : String) : String :=
  String.ofList (lowerFrom [] s.toList)

/-- The upper-case form of a text. -/
def upper (s : String) : String :=
  String.ofList (s.toList.flatMap upperChar)

/-- Whether two texts agree up to the case of ASCII letters. -/
def sameAscii (s t : String) : Bool :=
  s.toList.map Char.toLower == t.toList.map Char.toLower

end TurtleLogo.Text
