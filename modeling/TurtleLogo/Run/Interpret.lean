import TurtleLogo.Primitive.Apply

set_option autoImplicit false

/-! # The interpreter

Lists of instructions, expressions and procedures call for one another without end in sight, so the
interpreter runs on fuel: `interpret n` runs a job whose nesting, loops included, stays within `n`.
A job that finishes on some fuel finishes the same way on more. -/

namespace TurtleLogo

/-! ## Instructions -/

/-- Runs at most `n` instructions; `last` is the value of the one before. -/
def instructions (eng : Engine) (keep : Bool) :
    Nat → Option Atom → List Atom → Run (Option Atom)
  | _, last, [] => pure last
  | 0, last, _ => pure last
  | n + 1, _, atoms => do
    let (v, rest) ← eng.evaluate atoms
    match v with
    | none => instructions eng keep n none rest
    | some a =>
      if keep then instructions eng keep n (some a) rest else Run.fail (.unusedValue a)

/-- Runs a list of instructions and gives the value of the last. -/
def execute (eng : Engine) (code : List Atom) (keep : Bool) : Run (Option Atom) :=
  instructions eng keep code.length none code

/-! ## Expressions -/

/-- Evaluates the negative of an operand. -/
def forceNegate (eng : Engine) (operand : Expr) : Run (Option Atom) := do
  let a ← eng.demand operand "-"
  let n ← Run.require (.unsuitable .notANumber "-" a) a.number?
  pure (some (.number (-n)))

/-- Evaluates both operands, the left one first, and applies the operator. -/
def forceBinary (eng : Engine) (op : Operator) (left right : Expr) : Run (Option Atom) := do
  let a ← eng.demand left op.symbol
  let b ← eng.demand right op.symbol
  let v ← Run.ofExcept (op.apply a b)
  pure (some v)

/-- Calls a procedure. -/
def call (eng : Engine) (p : Procedure) (inputs : List Expr) : Run (Option Atom) := do
  enter p.name
  leaving (eng.run (.invoke p inputs))

/-- Evaluates an expression. -/
def force (eng : Engine) : Expr → Run (Option Atom)
  | .constant a => pure (some a)
  | .thing name => do
    let w ← Run.world
    let a ← Run.require (.noValue name) (w.value? name)
    pure (some a)
  | .negate operand => forceNegate eng operand
  | .binary op left right => forceBinary eng op left right
  | .call p inputs => call eng p inputs
  | .nothing => pure none

/-- Evaluates inputs from left to right. -/
def forceInputs (eng : Engine) (name : String) : List Expr → Run (List Atom)
  | [] => pure []
  | e :: rest => do
    let a ← eng.demand e name
    let as ← forceInputs eng name rest
    pure (a :: as)

/-! ## Definitions -/

/-- Binds required inputs; gives the values that are left. -/
def bindInputs : List String → List Atom → Run (List Atom)
  | [], args => pure args
  | _ :: _, [] => pure []
  | name :: names, a :: args => do
    Run.onFrames (·.bindLocal name a)
    bindInputs names args

/-- The value of a default expression. -/
def defaultValue (eng : Engine) (name : String) (default : List Atom) : Run Atom := do
  let (v, _) ← eng.evaluate default
  Run.require (.defaultWithoutValue name) v

/-- Binds optional inputs, those without a value to their defaults; gives the values that are
left. -/
def bindOptional (eng : Engine) : List (String × List Atom) → List Atom → Run (List Atom)
  | [], args => pure args
  | (name, default) :: inputs, [] => do
    let a ← defaultValue eng name default
    Run.onFrames (·.bindLocal name a)
    bindOptional eng inputs []
  | (name, _) :: inputs, a :: args => do
    Run.onFrames (·.bindLocal name a)
    bindOptional eng inputs args

/-- Binds the values that are left to the rest input, if there is one. -/
def bindRest : Option String → List Atom → Run Unit
  | some name, args => Run.onFrames (·.bindLocal name (.list args))
  | none, _ => pure ()

/-- Binds all inputs of a definition in the innermost frame. -/
def bindAll (eng : Engine) (d : Definition) (args : List Atom) : Run Unit := do
  let args ← bindInputs d.inputs args
  let args ← bindOptional eng d.optional args
  bindRest d.rest args

/-- Runs something in a frame of its own, which is dropped however it ends. A value given by
`OUTPUT` is the value of the whole, and `STOP` ends it without a value. -/
def framed (m : Run Unit) : Run (Option Atom) :=
  fun w =>
    match m { w with frames := w.frames.push } with
    | .done () w => .done none { w with frames := w.frames.pop }
    | .exit .stop w => .done none { w with frames := w.frames.pop }
    | .exit (.output a) w => .done (some a) { w with frames := w.frames.pop }
    | .exit (.fault f) w => .exit (.fault f) { w with frames := w.frames.pop }
    | .exhausted => .exhausted

/-- Runs a definition on the values of its inputs. -/
def invokeDefined (eng : Engine) (d : Definition) (args : List Atom) : Run (Option Atom) :=
  framed do
    bindAll eng d args
    eng.perform d.body

/-! ## Host primitives -/

/-- Carries out what a host primitive does. -/
def HostAction.perform (eng : Engine) :
    {handed : List Exit} → HostAction handed → Run (Option Atom)
  | _, finish v => pure v
  | _, fail kind message stack => Run.exit (.fault { cause := .host kind message, stack })
  | _, stop => Run.exit .stop
  | _, output a => Run.exit (.output a)
  | _, passOn e _ => Run.exit e
  | _, abort next => do
    Run.modify fun w => { w with aborted := true }
    next.perform eng
  | _, resume next => do
    Run.modify fun w => { w with aborted := false }
    next.perform eng
  | _, assign name a next => do
    Run.modify (·.assign name a)
    next.perform eng
  | _, observe next => fun w => (next w.glimpse).perform eng w
  | _, attempt code keep next =>
    Run.attempt (eng.execute code keep) fun result => (next result).perform eng

/-! ## Procedures -/

/-- Runs a procedure that has been entered. -/
def invoke (eng : Engine) (p : Procedure) (inputs : List Expr) : Run (Option Atom) :=
  match p.body with
  | .deferred q => q.apply eng p.name inputs
  | .definer => pure none
  | .primitive q => do
    let args ← forceInputs eng p.name inputs
    q.apply eng p.name args
  | .host act => do
    let args ← forceInputs eng p.name inputs
    (act args).perform eng
  | .defined d => do
    let args ← forceInputs eng p.name inputs
    invokeDefined eng d args

/-! ## The knot -/

/-- Does one job, with other jobs left to the engine. -/
def step (eng : Engine) : Job → Run (Option Atom)
  | .execute code keep => execute eng code keep
  | .force e => force eng e
  | .invoke p inputs => invoke eng p inputs

/-- Evaluates on a stack of its own. -/
def onOwnStack {α : Type} (f : Unit → α) : α :=
  (Task.spawn f .dedicated).get

@[simp] theorem onOwnStack_eq {α : Type} (f : Unit → α) : onOwnStack f = f () := rfl

/-- How many nested jobs share a stack. -/
def jobsPerStack : Nat :=
  2048

/-- Runs a job on `fuel`. A job nested too deep for the stack it is on moves to a new one. -/
def interpret : Nat → Job → World → Outcome (Option Atom)
  | 0, _, _ => .exhausted
  | fuel + 1, job, w =>
    if fuel % jobsPerStack = 0 then
      onOwnStack fun _ => step ⟨interpret fuel, Engine.parse, fuel⟩ job w
    else step ⟨interpret fuel, Engine.parse, fuel⟩ job w

theorem interpret_succ (fuel : Nat) (job : Job) (w : World) :
    interpret (fuel + 1) job w = step ⟨interpret fuel, Engine.parse, fuel⟩ job w := by
  simp [interpret]

end TurtleLogo
