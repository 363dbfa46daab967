import TurtleLogo.Expr

set_option autoImplicit false

/-! # Relations that reading respects

Many facts about reading are proved by the same induction: something holds of the few steps that
look at the atoms, the registry or the context, and reading an expression puts such steps together.
`Congruence R After` collects what has to be shown of the steps, and `Congruence.expression` is the
induction, done once for all of them.

The relation is between two readers, so that it can compare two runs; a property of one reader is a
relation that ignores the second. -/

namespace TurtleLogo

/-- Causes with places of their own: a call or a definition that is refused, a program that the host
has asked to stop, a primitive that lacks an input. No other place raises them. What a host raises
may be of any kind, but is told apart by its cause. -/
def Cause.isReserved : Cause → Bool
  | inputMissing _ | tooDeep _ | aborted => true
  | unsuitable kind _ _ => kind == .depthExceeded || kind == .aborted
  | _ => false

end TurtleLogo

namespace TurtleLogo.Parse

/-- Takes the name that an opening parenthesis calls and goes on with `call`, or reads `other` if
there is none. -/
def calledOr (call : String → Parse Expr) (other : Parse Expr) : Parse Expr :=
  fun ctx s =>
    match enclosedName? s with
    | some name => call name ctx { s with atoms := s.atoms.tail }
    | none => other ctx s

/-- Reads an expression and the closing parenthesis after it. -/
def grouped (expr : Parse Expr) : Parse Expr := do
  let e ← expr
  match ← next with
  | some a => if a.isWord ")" then Pure.pure e else fail .closingExpected
  | none => fail .closingExpected

theorem enclosed_eq_calledOr (expr : Parse Expr) (n : Nat) :
    enclosed expr n = calledOr (enclosedCall expr n) (grouped expr) := rfl

/-- Reads an operand whose first atom has been taken. -/
def operandFrom (expr : Parse Expr) (n : Nat) : Option Atom → Parse Expr
  | none => fail .endOfInstructions
  | some (.word w) => wordExpr expr n w
  | some a => Pure.pure (.constant a)

theorem operand_eq_next (expr : Parse Expr) (n : Nat) :
    operand expr n = next >>= operandFrom expr n := rfl

/-- A relation `R` between readers that every step of reading respects. `After a` relates what is
read right after the atom `a` has been taken, when it is still known what that atom was. -/
structure Congruence (R : (α : Type) → Parse α → Parse α → Prop)
    (After : Option Atom → Parse Expr → Parse Expr → Prop) : Prop where
  ok {α : Type} (a : α) : R α (Pure.pure a) (Pure.pure a)
  fail {α : Type} (cause : Cause) : cause.isReserved = false →
    R α (Parse.fail cause) (Parse.fail cause)
  bind {α β : Type} {m m' : Parse α} {f f' : α → Parse β} :
    R α m m' → (∀ a, R β (f a) (f' a)) → R β (m >>= f) (m' >>= f')
  peek : R _ Parse.peek Parse.peek
  skip : R _ Parse.next Parse.next
  nextIs (text : String) : R _ (Parse.nextIs text) (Parse.nextIs text)
  takeOperator (level : Level) : R _ (Parse.takeOperator level) (Parse.takeOperator level)
  next {k k' : Option Atom → Parse Expr} :
    (∀ a, After a (k a) (k' a)) → R _ (Parse.next >>= k) (Parse.next >>= k')
  later {a : Option Atom} {m m' : Parse Expr} : R _ m m' → After a m m'
  call (name : String) {inputs inputs' : Procedure → Parse Expr} :
    (∀ p, R _ (inputs p) (inputs' p)) →
      After (some (.word name)) (callOf name inputs) (callOf name inputs')
  calledOr {call call' : String → Parse Expr} {other other' : Parse Expr} :
    (∀ name, After (some (.word name)) (call name) (call' name)) → R _ other other' →
      R _ (Parse.calledOr call other) (Parse.calledOr call' other')

namespace Congruence

variable {R : (α : Type) → Parse α → Parse α → Prop}
variable {After : Option Atom → Parse Expr → Parse Expr → Prop}
variable {m m' expr expr' : Parse Expr}

/-! ## Operators -/

theorem chainFrom (h : Congruence R After) (level : Level) (ho : R _ m m') :
    ∀ (n : Nat) (left : Expr),
      R _ (Parse.chainFrom level m n left) (Parse.chainFrom level m' n left) := by
  intro n
  induction n with
  | zero => intro left; exact h.ok left
  | succ n ih =>
    intro left
    refine h.bind (h.takeOperator level) fun op => ?_
    cases op with
    | none => exact h.ok left
    | some op => exact h.bind ho fun right => ih (.binary op left right)

theorem chain (h : Congruence R After) (level : Level) (ho : R _ m m') (n : Nat) :
    R _ (Parse.chain level m n) (Parse.chain level m' n) :=
  h.bind ho fun left => h.chainFrom level ho n left

theorem powers (h : Congruence R After) (ho : R _ m m') (n : Nat) :
    R _ (Parse.powers m n) (Parse.powers m' n) := by
  induction n with
  | zero => exact ho
  | succ n ih =>
    refine h.bind ho fun left => h.bind (h.takeOperator .power) fun op => ?_
    cases op with
    | none => exact h.ok left
    | some op => exact h.bind ih fun right => h.ok (Expr.binary op left right)

theorem signed (h : Congruence R After) (ho : R _ m m') (n : Nat) :
    R _ (Parse.signed m n) (Parse.signed m' n) := by
  induction n with
  | zero => exact ho
  | succ n ih =>
    refine h.bind (h.nextIs "-") fun minus => ?_
    cases minus with
    | false => exact ho
    | true => exact h.bind h.skip fun _ => h.bind ih fun e => h.ok (Expr.negate e)

/-! ## Calls -/

theorem naturalInputs (h : Congruence R After) (he : R _ expr expr') (name : String) (count : Nat) :
    R _ (Parse.naturalInputs expr name count) (Parse.naturalInputs expr' name count) := by
  induction count with
  | zero => exact h.ok []
  | succ count ih =>
    refine h.bind h.peek fun a => ?_
    cases a with
    | none => exact h.fail (.notEnoughInputs name) rfl
    | some a =>
      dsimp only
      split
      · exact h.fail (.notEnoughInputs name) rfl
      · exact h.bind he fun e => h.bind ih fun es => h.ok (e :: es)

theorem enclosedInputs (h : Congruence R After) (he : R _ expr expr') (name : String) (n : Nat) :
    R _ (Parse.enclosedInputs expr name n) (Parse.enclosedInputs expr' name n) := by
  induction n with
  | zero => exact h.fail (.closingExpectedAfter name) rfl
  | succ n ih =>
    refine h.bind h.peek fun a => ?_
    cases a with
    | none => exact h.fail (.closingExpectedAfter name) rfl
    | some a =>
      dsimp only
      split
      · exact h.bind h.skip fun _ => h.ok []
      · exact h.bind he fun e => h.bind ih fun es => h.ok (e :: es)

theorem checkInputs (h : Congruence R After) (p : Procedure) (inputs : List Expr) :
    R _ (Parse.checkInputs p inputs) (Parse.checkInputs p inputs) := by
  unfold Parse.checkInputs
  split
  · exact h.fail (.notEnoughInputs p.name) rfl
  · split
    · exact h.ok (Expr.call p inputs)
    · exact h.fail (.tooManyInputs p.name) rfl

theorem naturalCall (h : Congruence R After) (he : R _ expr expr') (name : String) :
    After (some (.word name)) (Parse.naturalCall expr name) (Parse.naturalCall expr' name) :=
  h.call name fun p => h.bind (h.naturalInputs he p.name p.arity.natural) fun inputs =>
    h.ok (Expr.call p inputs)

theorem enclosedCall (h : Congruence R After) (he : R _ expr expr') (n : Nat) (name : String) :
    After (some (.word name)) (Parse.enclosedCall expr n name)
      (Parse.enclosedCall expr' n name) :=
  h.call name fun p => h.bind (h.enclosedInputs he p.name n) fun inputs => h.checkInputs p inputs

/-! ## Operands and expressions -/

theorem grouped (h : Congruence R After) (he : R _ expr expr') :
    R _ (Parse.grouped expr) (Parse.grouped expr') := by
  refine h.bind he fun e => h.bind h.skip fun a => ?_
  cases a with
  | none => exact h.fail .closingExpected rfl
  | some a =>
    dsimp only
    split
    · exact h.ok e
    · exact h.fail .closingExpected rfl

theorem enclosed (h : Congruence R After) (he : R _ expr expr') (n : Nat) :
    R _ (Parse.enclosed expr n) (Parse.enclosed expr' n) := by
  rw [enclosed_eq_calledOr, enclosed_eq_calledOr]
  exact h.calledOr (h.enclosedCall he n) (h.grouped he)

theorem wordExpr (h : Congruence R After) (he : R _ expr expr') (n : Nat) (w : String) :
    After (some (.word w)) (Parse.wordExpr expr n w) (Parse.wordExpr expr' n w) := by
  unfold Parse.wordExpr
  split
  · exact h.later (h.ok _)
  · split
    · exact h.later (h.ok _)
    · exact h.later (h.ok _)
    · exact h.later (h.enclosed he n)
    · exact h.later (h.fail .strayClosing rfl)
    · exact h.naturalCall he w

theorem operandFrom (h : Congruence R After) (he : R _ expr expr') (n : Nat) (a : Option Atom) :
    After a (Parse.operandFrom expr n a) (Parse.operandFrom expr' n a) := by
  cases a with
  | none => exact h.later (h.fail .endOfInstructions rfl)
  | some a =>
    cases a with
    | word w => exact h.wordExpr he n w
    | number x => exact h.later (h.ok _)
    | list items => exact h.later (h.ok _)

theorem operand (h : Congruence R After) (he : R _ expr expr') (n : Nat) :
    R _ (Parse.operand expr n) (Parse.operand expr' n) := by
  rw [operand_eq_next, operand_eq_next]
  exact h.next (h.operandFrom he n)

/-- Reading an expression respects every relation that the steps of reading respect. -/
theorem expression (h : Congruence R After) (n : Nat) :
    R _ (Parse.expression n) (Parse.expression n) := by
  induction n with
  | zero => exact h.fail .endOfInstructions rfl
  | succ n ih =>
    exact h.chain .relational
      (h.chain .additive
        (h.chain .multiplicative
          (h.powers (h.signed (h.operand ih n) (n + 1)) (n + 1)) (n + 1)) (n + 1)) (n + 1)

end Congruence

end TurtleLogo.Parse
