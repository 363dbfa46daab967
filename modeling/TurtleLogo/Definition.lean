import TurtleLogo.Arity
import TurtleLogo.Operator

set_option autoImplicit false

/-! # Definitions

What stands between `TO` and `END`: a name, the inputs, and a body. The header lists `:required`
inputs, then `[:optional default …]` lists, then at most one `[:rest]` list, then optionally how
many inputs a call without parentheses takes. -/

namespace TurtleLogo

/-- A procedure written in the language. -/
structure Definition where
  inputs : List String
  /-- Optional inputs with the expressions that stand in for them. -/
  optional : List (String × List Atom)
  /-- The input that takes all further inputs as a list. -/
  rest : Option String
  /-- Inputs of a call without parentheses. -/
  natural : Nat
  body : List Atom

namespace Definition

/-- How many inputs the procedure takes. -/
def arity (d : Definition) : Arity where
  natural := d.natural
  least := d.inputs.length
  most := if d.rest.isSome then none else some (d.inputs.length + d.optional.length)

/-! ## Parts of a header -/

/-- The name in a word `:name`. -/
def parameter? : Atom → Option String
  | .word w =>
    match w.toList with
    | ':' :: c :: cs => some (String.ofList (c :: cs))
    | _ => none
  | _ => none

/-- Whether a word can name a procedure: it is neither a numeral, an operator, a parenthesis nor
a quoted or colon word. -/
def isName (w : String) : Bool :=
  !isNumeral w && !isInfix w && w != "(" && w != ")" &&
    (match w.toList with
    | c :: _ => c != ':' && c != '"'
    | [] => true)

/-- Splits off the leading `:name` words. -/
def takeInputs : List Atom → List String × List Atom
  | [] => ([], [])
  | a :: ts =>
    match parameter? a with
    | some name =>
      let more := takeInputs ts
      (name :: more.1, more.2)
    | none => ([], a :: ts)

/-- The name and default in a list `[:name default …]`. -/
def optional? : Atom → Option (String × List Atom)
  | .list (a :: b :: rest) => (parameter? a).map (·, b :: rest)
  | _ => none

/-- Splits off the leading lists of optional inputs. -/
def takeOptional : List Atom → List (String × List Atom) × List Atom
  | [] => ([], [])
  | a :: ts =>
    match optional? a with
    | some input =>
      let more := takeOptional ts
      (input :: more.1, more.2)
    | none => ([], a :: ts)

/-- The name in a list `[:name]`. -/
def rest? : Atom → Option String
  | .list [a] => parameter? a
  | _ => none

/-- Splits off a leading list `[:name]`. -/
def takeRest : List Atom → Option String × List Atom
  | [] => (none, [])
  | a :: ts =>
    match rest? a with
    | some name => (some name, ts)
    | none => (none, a :: ts)

/-- The number that a leading numeral declares. -/
def declared? : List Atom → Option Float
  | .word w :: _ => numeral? w
  | _ => none

/-- Whether `n` inputs can be the natural number for a header with so many required and optional
inputs. -/
def isConsistent (inputs optional : Nat) (hasRest : Bool) (n : Float) : Bool :=
  Decimal.isWhole n && n ≥ 0.0 && decide (inputs ≤ Decimal.toCount n) &&
    (hasRest || decide (Decimal.toCount n ≤ inputs + optional))

/-- Splits off the body up to `END`, if there is one. Without one, nothing is left. -/
def takeBody : List Atom → Option (List Atom) × List Atom
  | [] => (none, [])
  | a :: ts =>
    if a.isKeyword "end" then (some [], ts)
    else
      let more := takeBody ts
      (more.1.map (a :: ·), more.2)

/-- Reads the body of a definition whose header is complete. -/
def parseBody (name : String) (inputs : List String) (optional : List (String × List Atom))
    (rest : Option String) (natural : Nat) (ts : List Atom) :
    Except Cause (String × Definition) × List Atom :=
  match takeBody ts with
  | (some body, ts) => (.ok (name, { inputs, optional, rest, natural, body }), ts)
  | (none, ts) => (.error (.endExpected name), ts)

/-- Reads a definition from what follows `TO`, up to and with `END`. Gives the name and the
definition, or why there is none, and the atoms that are left. -/
def parse : List Atom → Except Cause (String × Definition) × List Atom
  | [] => (.error .nameMissing, [])
  | .word name :: ts =>
    if !isName name then (.error (.unsuitable .badDefinition "TO" (.word name)), ts)
    else
      let (inputs, ts) := takeInputs ts
      let (optional, ts) := takeOptional ts
      let (rest, ts) := takeRest ts
      match declared? ts with
      | none => parseBody name inputs optional rest inputs.length ts
      | some n =>
        if isConsistent inputs.length optional.length rest.isSome n then
          parseBody name inputs optional rest (Decimal.toCount n) ts.tail
        else (.error (.badInputCount name), ts)
  | a :: ts => (.error (.unsuitable .badDefinition "TO" a), ts)

end Definition

end TurtleLogo
