import TurtleLogo.Procedure

set_option autoImplicit false

/-! # Expressions

An instruction is read into an expression before anything of it runs. An expression can be forced
any number of times, and each time it looks up its variables and calls its procedures anew.

An expression is taken off the front of a list of atoms. Where it ends depends on the procedures
that are known: a call takes as many inputs as its procedure asks for. A definition takes effect as
soon as it is read, so reading may add to the registry; it changes nothing else. What is left of the
atoms matters also when reading fails.

Every function takes a bound on the number of atoms that are left. The bound is never reached:
the atoms run out first. -/

namespace TurtleLogo

/-- An instruction or input that has been read and not yet run. -/
inductive Expr where
  | constant (value : Atom)
  /-- The value of a variable. -/
  | thing (name : String)
  | negate (operand : Expr)
  | binary (op : Operator) (left right : Expr)
  | call (procedure : Procedure) (inputs : List Expr)
  /-- A definition, which has taken effect already and has no value. -/
  | nothing

/-- Who is to blame when an expression has no value. -/
def Expr.producer : Expr → String
  | call procedure _ => procedure.name
  | _ => "TO"

/-! ## Readers -/

namespace Parse

/-- What reading needs to know of a running program. -/
structure Context where
  /-- The running procedures, outermost first. -/
  calls : Array String
  /-- How many calls may be nested. -/
  limit : Nat
  /-- Whether the host has asked the program to stop. -/
  aborted : Bool

/-- What reading changes: the atoms that are left and the known procedures. -/
structure State where
  atoms : List Atom
  registry : Registry

/-- How reading ends. -/
inductive Result (α : Type) where
  | ok (value : α) (state : State)
  | fail (fault : Fault) (state : State)

end Parse

/-- A reader of atoms. -/
def Parse (α : Type) : Type :=
  Parse.Context → Parse.State → Parse.Result α

namespace Parse

variable {α β : Type}

/-- Reads nothing. -/
@[always_inline, inline]
def pure (a : α) : Parse α :=
  fun _ s => .ok a s

/-- Reads on with what was read so far. -/
@[always_inline, inline]
def bind (m : Parse α) (f : α → Parse β) : Parse β :=
  fun ctx s =>
    match m ctx s with
    | .ok a s => f a ctx s
    | .fail e s => .fail e s

@[always_inline]
instance : Monad Parse where
  pure := pure
  bind := bind

/-- Fails with a cause; the running procedures are recorded later. -/
def fail (cause : Cause) : Parse α :=
  fun _ s => .fail { cause } s

/-- The next atom, which stays. -/
def peek : Parse (Option Atom) :=
  fun _ s => .ok s.atoms.head? s

/-- Takes the next atom. -/
def next : Parse (Option Atom) :=
  fun _ s => .ok s.atoms.head? { s with atoms := s.atoms.tail }

/-- Whether the next atom is this word. -/
def nextIs (text : String) : Parse Bool :=
  fun _ s => .ok (s.atoms.head?.any (·.isWord text)) s

/-- The procedure of a name. -/
def procedure? (name : String) : Parse (Option Procedure) :=
  fun _ s => .ok (s.registry.get? name) s

/-! ## Operators -/

/-- The operator that an atom writes. -/
def operator? (a : Atom) : Option Operator :=
  a.word?.bind Operator.ofWord?

/-- Takes the next atom if it is an operator of this level. -/
def takeOperator (level : Level) : Parse (Option Operator) :=
  fun _ s =>
    match s.atoms.head?.bind operator? with
    | some op => if op.level = level then .ok (some op) { s with atoms := s.atoms.tail }
      else .ok none s
    | none => .ok none s

/-- Reads the rest of a chain of operators of one level, which group to the left; `left` has been
read. -/
def chainFrom (level : Level) (operand : Parse Expr) : Nat → Expr → Parse Expr
  | 0, left => pure left
  | n + 1, left => do
    match ← takeOperator level with
    | none => pure left
    | some op =>
      let right ← operand
      chainFrom level operand n (.binary op left right)

/-- Reads a chain of operators of one level. -/
def chain (level : Level) (operand : Parse Expr) (n : Nat) : Parse Expr := do
  let left ← operand
  chainFrom level operand n left

/-- Reads powers, which group to the right. -/
def powers (operand : Parse Expr) : Nat → Parse Expr
  | 0 => operand
  | n + 1 => do
    let left ← operand
    match ← takeOperator .power with
    | none => pure left
    | some op =>
      let right ← powers operand n
      pure (.binary op left right)

/-- Reads an operand with any number of minus signs before it. -/
def signed (operand : Parse Expr) : Nat → Parse Expr
  | 0 => operand
  | n + 1 => do
    if ← nextIs "-" then
      let _ ← next
      let e ← signed operand n
      pure (.negate e)
    else operand

/-! ## Calls -/

/-- Reads exactly `count` inputs. -/
def naturalInputs (expr : Parse Expr) (name : String) : Nat → Parse (List Expr)
  | 0 => pure []
  | count + 1 => do
    match ← peek with
    | none => fail (.notEnoughInputs name)
    | some a =>
      if a.isWord ")" then fail (.notEnoughInputs name)
      else
        let e ← expr
        let es ← naturalInputs expr name count
        pure (e :: es)

/-- Reads inputs up to and with a closing parenthesis. -/
def enclosedInputs (expr : Parse Expr) (name : String) : Nat → Parse (List Expr)
  | 0 => fail (.closingExpectedAfter name)
  | n + 1 => do
    match ← peek with
    | none => fail (.closingExpectedAfter name)
    | some a =>
      if a.isWord ")" then
        let _ ← next
        pure []
      else
        let e ← expr
        let es ← enclosedInputs expr name n
        pure (e :: es)

/-- Checks the number of inputs of a call in parentheses. -/
def checkInputs (p : Procedure) (inputs : List Expr) : Parse Expr :=
  if inputs.length < p.arity.least then fail (.notEnoughInputs p.name)
  else if p.arity.accepts inputs.length then pure (.call p inputs)
  else fail (.tooManyInputs p.name)

/-- Reads a definition and enters it. This counts as a call of `TO`. -/
def define (definer : Procedure) : Parse Expr :=
  fun ctx s =>
    if ctx.aborted then .fail { cause := .aborted } s
    else if ctx.calls.size ≥ ctx.limit then
      .fail { cause := .tooDeep ctx.limit, stack := ctx.calls.toList } s
    else
      let stack := (ctx.calls.push definer.name).toList
      match Definition.parse s.atoms with
      | (.error cause, rest) => .fail { cause, stack } { s with atoms := rest }
      | (.ok (name, d), rest) =>
        match s.registry.install name d with
        | .error cause => .fail { cause, stack } { s with atoms := rest }
        | .ok registry => .ok .nothing { atoms := rest, registry }

/-- Reads a call whose name has been taken. -/
def callOf (name : String) (inputs : Procedure → Parse Expr) : Parse Expr := do
  match ← procedure? name with
  | none => fail (.unknownProcedure name)
  | some p =>
    match p.body with
    | .definer => define p
    | _ => inputs p

/-- Reads a call without parentheses. No room is set aside for its inputs beforehand;
`TurtleLogo.Proofs.Parse.Room` says for which calls there would be none. -/
def naturalCall (expr : Parse Expr) (name : String) : Parse Expr :=
  callOf name fun p => do
    let inputs ← naturalInputs expr p.name p.arity.natural
    pure (.call p inputs)

/-- Reads a call after an opening parenthesis. -/
def enclosedCall (expr : Parse Expr) (n : Nat) (name : String) : Parse Expr :=
  callOf name fun p => do
    let inputs ← enclosedInputs expr p.name n
    checkInputs p inputs

/-! ## Parentheses -/

/-- The name of the procedure that an opening parenthesis calls: the next word, if it names one and
no operator follows it. -/
def enclosedName? (s : State) : Option String :=
  match s.atoms with
  | .word name :: rest =>
    if s.registry.contains name && (rest.head?.bind operator?).isNone then some name else none
  | _ => none

/-- Reads what follows an opening parenthesis: a call with any number of inputs, or an expression
and the closing parenthesis. -/
def enclosed (expr : Parse Expr) (n : Nat) : Parse Expr :=
  fun ctx s =>
    match enclosedName? s with
    | some name => enclosedCall expr n name ctx { s with atoms := s.atoms.tail }
    | none =>
      (do
        let e ← expr
        match ← next with
        | some a => if a.isWord ")" then pure e else fail .closingExpected
        | none => fail .closingExpected : Parse Expr) ctx s

/-! ## Expressions -/

/-- Reads an expression that begins with a word. -/
def wordExpr (expr : Parse Expr) (n : Nat) (w : String) : Parse Expr :=
  match numeral? w with
  | some value => pure (.constant (.number value))
  | none =>
    match w.toList with
    | '"' :: text => pure (.constant (.word (String.ofList text)))
    | ':' :: name => pure (.thing (String.ofList name))
    | ['('] => enclosed expr n
    | [')'] => fail .strayClosing
    | _ => naturalCall expr w

/-- Reads an expression without operators of its own; `expr` reads the expressions inside it. -/
def operand (expr : Parse Expr) (n : Nat) : Parse Expr := do
  match ← next with
  | none => fail .endOfInstructions
  | some (.word w) => wordExpr expr n w
  | some a => pure (.constant a)

/-- Reads an expression of at most `n` atoms. -/
def expression : Nat → Context → State → Result Expr
  | 0, ctx, s => fail .endOfInstructions ctx s
  | n + 1, ctx, s =>
    chain .relational
      (chain .additive
        (chain .multiplicative
          (powers (signed (operand (expression n) n) (n + 1)) (n + 1)) (n + 1)) (n + 1)) (n + 1)
      ctx s

end Parse

/-- Reads one expression off the front of the atoms. -/
def parseExpr : Parse Expr :=
  fun ctx s => Parse.expression s.atoms.length ctx s

end TurtleLogo
