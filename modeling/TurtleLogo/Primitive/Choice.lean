import TurtleLogo.Run.Input

set_option autoImplicit false

/-! # Primitives that choose

Conditionals, clause lists and logic. -/

namespace TurtleLogo.Act

/-! ## Conditionals -/

/-- `IF` and `IFELSE`: runs one of the lists after the condition, or none if there is no second. -/
def ifElse (eng : Engine) (me : String) : List Atom → Run (Option Atom)
  | test :: yes :: more => do
    let branch := if ← eng.truthFor test me then some yes else more.head?
    match branch with
    | some a =>
      let code ← Input.list me a
      eng.execute code true
    | none => pure none
  | _ => Run.fail (.notEnoughInputs me)

/-- `TEST`: keeps the truth value of a condition for `IFTRUE` and `IFFALSE`. -/
def test (eng : Engine) (me : String) (args : List Atom) : Run (Option Atom) := do
  let a ← Input.nth me args 0
  let b ← eng.truthFor a me
  Run.onFrames (·.setTest (some b))
  pure none

/-- `IFTRUE` and `IFFALSE`: runs a list if the last `TEST` of the running procedure was `wanted`. -/
def ifTest (eng : Engine) (me : String) (wanted : Bool) (args : List Atom) :
    Run (Option Atom) := do
  let a ← Input.nth me args 0
  let w ← Run.world
  let b ← Run.require (.testMissing me) w.frames.innermost.test
  let code ← Input.list me a
  if b == wanted then eng.execute code true else pure none

/-! ## Clauses -/

/-- A clause taken apart: a list of a head and instructions. -/
def clause (me : String) (a : Atom) : Run (Atom × List Atom) := do
  match ← Input.list me a with
  | head :: code => pure (head, code)
  | [] => Run.fail (.unsuitable .badInput me a)

/-- Whether the head of a `CASE` clause matches: it is `ELSE`, the key, or a list of keys with the
key among them. -/
def caseMatches (key : Atom) : Atom → Bool
  | .list keys => keys.any (·.equal key)
  | head => head.isKeyword "else" || head.equal key

/-- Runs the first clause whose head matches. -/
def caseFrom (eng : Engine) (me : String) (key : Atom) : List Atom → Run (Option Atom)
  | [] => pure none
  | c :: rest => do
    let (head, code) ← clause me c
    if caseMatches key head then eng.execute code true else caseFrom eng me key rest

/-- `CASE`: chooses by a key. -/
def caseOf (eng : Engine) (me : String) (args : List Atom) : Run (Option Atom) := do
  let clauses ← Input.listAt me args 1
  let key ← Input.nth me args 0
  caseFrom eng me key clauses

/-- The value of the test of a `COND` clause: a list is run, an atom is evaluated by itself. -/
def testValue (eng : Engine) : Atom → Run Atom
  | .list items => eng.demandList items "COND"
  | a => do
    let (v, _) ← eng.evaluate [a]
    Run.require .clauseWithoutValue v

/-- Whether a `COND` clause is taken. -/
def testHolds (eng : Engine) (test : Atom) : Run Bool :=
  if test.isKeyword "else" then pure true
  else do
    let a ← testValue eng test
    eng.truthFor a "COND"

/-- Runs the first clause whose test holds. -/
def condFrom (eng : Engine) (me : String) : List Atom → Run (Option Atom)
  | [] => pure none
  | c :: rest => do
    let (test, code) ← clause me c
    if ← testHolds eng test then eng.execute code true else condFrom eng me rest

/-- `COND`: chooses by tests. -/
def condClauses (eng : Engine) (me : String) (args : List Atom) : Run (Option Atom) := do
  let clauses ← Input.listAt me args 0
  condFrom eng me clauses

/-! ## Logic -/

/-- `NOT`. -/
def negation (me : String) (args : List Atom) : Run (Option Atom) := do
  let a ← Input.nth me args 0
  let b ← Input.truth me a
  pure (some (.ofBool (!b)))

/-- Whether an odd number of the inputs, and of `odd`, are true. -/
def parity (me : String) (odd : Bool) : List Atom → Run Bool
  | [] => pure odd
  | a :: rest => do
    let b ← Input.truth me a
    parity me (odd != b) rest

/-- `XOR`. -/
def exclusiveOr (me : String) (args : List Atom) : Run (Option Atom) := do
  let b ← parity me false args
  pure (some (.ofBool b))

/-- `AND` and `OR`: evaluates conditions in order until one is `decisive`, which then is the
result. -/
def untilDecisive (eng : Engine) (me : String) (decisive : Bool) : List Expr → Run (Option Atom)
  | [] => pure (some (.ofBool (!decisive)))
  | e :: rest => do
    let b ← eng.condition e me
    if b == decisive then pure (some (.ofBool decisive)) else untilDecisive eng me decisive rest

end TurtleLogo.Act
