import TurtleLogo.Proofs.Parse.Effect

set_option autoImplicit false

/-! # What reading yields

`Yields I Q m` says what the reader `m` yields in a state that satisfies `I`: a value that satisfies
`Q`, or a fault, and in either case a state that satisfies `I` again. `Forms I A E` lists what it
takes for everything that is read to be an expression with `E`, and the rules for sequences and for
each part of the grammar end in `Forms.expression`. Where only the calls in an expression matter,
`Supports` is enough. -/

namespace TurtleLogo

/-- Whether the cause is an input that a primitive looks at and that is not there. -/
def Cause.isInputMissing : Cause → Bool
  | inputMissing _ => true
  | _ => false

theorem Cause.isInputMissing_of_kind {cause : Cause} (h : cause.kind ≠ .arity) :
    cause.isInputMissing = false := by
  cases cause with
  | inputMissing name => exact absurd rfl h
  | _ => rfl

theorem Cause.isInputMissing_of_unreserved {cause : Cause} (h : cause.isReserved = false) :
    cause.isInputMissing = false := by
  cases cause with
  | inputMissing name => cases h
  | _ => rfl

/-- Every call in the expression satisfies `P` together with the number of its inputs. -/
inductive Expr.Calls (P : Procedure → Nat → Prop) : Expr → Prop where
  | constant (a : Atom) : Calls P (.constant a)
  | thing (name : String) : Calls P (.thing name)
  | nothing : Calls P .nothing
  | negate {e : Expr} : Calls P e → Calls P (.negate e)
  | binary (op : Operator) {left right : Expr} : Calls P left → Calls P right →
    Calls P (.binary op left right)
  | call {p : Procedure} {inputs : List Expr} : P p inputs.length → (∀ e ∈ inputs, Calls P e) →
    Calls P (.call p inputs)

theorem Expr.Calls.mono {P Q : Procedure → Nat → Prop} {e : Expr} (h : e.Calls P)
    (hPQ : ∀ p n, P p n → Q p n) : e.Calls Q := by
  induction h with
  | constant a => exact .constant a
  | thing name => exact .thing name
  | nothing => exact .nothing
  | negate _ ih => exact .negate ih
  | binary op _ _ ihleft ihright => exact .binary op ihleft ihright
  | call hp _ ih => exact .call (hPQ _ _ hp) ih

namespace Parse

/-! ## Steps -/

/-- Reading has ended in a state with `I`. A value that was read satisfies `Q`, and a fault is not
about an input that is not there. -/
def Result.Meets {α : Type} (I : State → Prop) (Q : α → Prop) : Result α → Prop
  | .ok a s => I s ∧ Q a
  | .fail f s => I s ∧ f.cause.isInputMissing = false

/-- From a state with `I` a reader comes to one with `I`, and what it reads satisfies `Q`. -/
def Yields {α : Type} (I : State → Prop) (Q : α → Prop) (m : Parse α) : Prop :=
  ∀ ctx s, I s → (m ctx s).Meets I Q

variable {α β : Type} {I : State → Prop} {Q : α → Prop} {m : Parse α}

theorem Yields.ok {a : α} (h : Q a) : Yields I Q (Pure.pure a) :=
  fun _ _ hI => ⟨hI, h⟩

theorem Yields.fail {cause : Cause} (h : cause.isInputMissing = false) :
    Yields I Q (Parse.fail cause) :=
  fun _ _ hI => ⟨hI, h⟩

theorem Yields.bind {Q' : β → Prop} {f : α → Parse β} (hm : Yields I Q m)
    (hf : ∀ a, Q a → Yields I Q' (f a)) : Yields I Q' (m >>= f) := by
  intro ctx s hI
  have hs := hm ctx s hI
  cases hr : m ctx s with
  | ok a s₁ =>
    rw [hr] at hs
    rw [bind_ok hr]
    exact hf a hs.2 ctx s₁ hs.1
  | fail e s₁ =>
    rw [hr] at hs
    rw [bind_fail hr]
    exact hs

theorem Yields.peek : Yields I (fun _ => True) Parse.peek :=
  fun _ _ hI => ⟨hI, trivial⟩

theorem Yields.nextIs (text : String) : Yields I (fun _ => True) (Parse.nextIs text) :=
  fun _ _ hI => ⟨hI, trivial⟩

/-! ## Expressions -/

/-- What the states with `I` have to give for all that is read in them to satisfy `E`. Their atoms
satisfy `A`, atoms may be taken off, and constants and calls with `E` can be formed: calls of their
procedures with the natural number of inputs or any other that is accepted. Entering a definition
that stands in the atoms keeps `I`. -/
structure Forms (I : State → Prop) (A : Atom → Prop) (E : Expr → Prop) : Prop where
  atom {s : State} {a : Atom} : I s → a ∈ s.atoms → A a
  left {s : State} {ts : List Atom} : I s → ts <:+ s.atoms → I { s with atoms := ts }
  define {s : State} {rest : List Atom} {given : String} {d : Definition} {r : Registry} : I s →
    Definition.parse s.atoms = (.ok (given, d), rest) → s.registry.install given d = .ok r →
    I ⟨rest, r⟩
  constant {a : Atom} : A a → E (.constant a)
  number (x : Float) : E (.constant (.number x))
  unquoted {w : String} {text : List Char} : A (.word w) → w.toList = '"' :: text →
    E (.constant (.word (String.ofList text)))
  thing (name : String) : E (.thing name)
  nothing : E .nothing
  negate {e : Expr} : E e → E (.negate e)
  binary (op : Operator) {left right : Expr} : E left → E right → E (.binary op left right)
  natural {s : State} {name : String} {p : Procedure} {inputs : List Expr} : I s →
    s.registry.get? name = some p → inputs.length = p.arity.natural → (∀ e ∈ inputs, E e) →
    E (.call p inputs)
  accepted {s : State} {name : String} {p : Procedure} {inputs : List Expr} : I s →
    s.registry.get? name = some p → p.arity.accepts inputs.length = true → (∀ e ∈ inputs, E e) →
    E (.call p inputs)

namespace Forms

variable {A : Atom → Prop} {E : Expr → Prop} {expr : Parse Expr}

theorem next (h : Forms I A E) : Yields I (fun a => ∀ b ∈ a, A b) Parse.next := by
  intro ctx s hI
  refine ⟨h.left hI (List.tail_suffix s.atoms), fun b hb => h.atom hI ?_⟩
  exact List.mem_of_mem_head? hb

theorem takeOperator (h : Forms I A E) (level : Level) :
    Yields I (fun _ => True) (Parse.takeOperator level) := by
  intro ctx s hI
  rcases takeOperator_cases level ctx s with ⟨a, ts, op, hatoms, -, -, htake⟩ | ⟨-, htake⟩
  · rw [htake]
    exact ⟨h.left hI (hatoms ▸ List.suffix_cons a ts), trivial⟩
  · rw [htake]
    exact ⟨hI, trivial⟩

/-! ### Operators -/

theorem chainFrom (h : Forms I A E) (level : Level) (ho : Yields I E expr) (n : Nat) :
    ∀ left, E left → Yields I E (Parse.chainFrom level expr n left) := by
  induction n with
  | zero => intro left hleft; exact .ok hleft
  | succ n ih =>
    intro left hleft
    refine (h.takeOperator level).bind fun op _ => ?_
    cases op with
    | none => exact .ok hleft
    | some op => exact ho.bind fun right hright => ih _ (h.binary op hleft hright)

theorem chain (h : Forms I A E) (level : Level) (ho : Yields I E expr) (n : Nat) :
    Yields I E (Parse.chain level expr n) :=
  ho.bind fun left hleft => h.chainFrom level ho n left hleft

theorem powers (h : Forms I A E) (ho : Yields I E expr) (n : Nat) :
    Yields I E (Parse.powers expr n) := by
  induction n with
  | zero => exact ho
  | succ n ih =>
    refine ho.bind fun left hleft => (h.takeOperator .power).bind fun op _ => ?_
    cases op with
    | none => exact .ok hleft
    | some op => exact ih.bind fun right hright => .ok (h.binary op hleft hright)

theorem signed (h : Forms I A E) (ho : Yields I E expr) (n : Nat) :
    Yields I E (Parse.signed expr n) := by
  induction n with
  | zero => exact ho
  | succ n ih =>
    refine (Yields.nextIs "-").bind fun minus _ => ?_
    cases minus with
    | false => exact ho
    | true => exact h.next.bind fun _ _ => ih.bind fun e he => .ok (h.negate he)

/-! ### Calls -/

theorem naturalInputs (he : Yields I E expr) (name : String) (count : Nat) :
    Yields I (fun es => es.length = count ∧ ∀ e ∈ es, E e)
      (Parse.naturalInputs expr name count) := by
  induction count with
  | zero => exact .ok ⟨rfl, by simp⟩
  | succ count ih =>
    refine Yields.peek.bind fun a _ => ?_
    cases a with
    | none => exact .fail rfl
    | some a =>
      dsimp only
      split
      · exact .fail rfl
      · refine he.bind fun e hformed => ih.bind fun es hes => ?_
        exact .ok ⟨congrArg (· + 1) hes.1, List.forall_mem_cons.mpr ⟨hformed, hes.2⟩⟩

theorem enclosedInputs (h : Forms I A E) (he : Yields I E expr) (name : String) (n : Nat) :
    Yields I (fun es => ∀ e ∈ es, E e) (Parse.enclosedInputs expr name n) := by
  induction n with
  | zero => exact .fail rfl
  | succ n ih =>
    refine Yields.peek.bind fun a _ => ?_
    cases a with
    | none => exact .fail rfl
    | some a =>
      dsimp only
      split
      · exact h.next.bind fun _ _ => .ok (by simp)
      · refine he.bind fun e hformed => ih.bind fun es hes => ?_
        exact .ok (List.forall_mem_cons.mpr ⟨hformed, hes⟩)

theorem defining (h : Forms I A E) (definer : Procedure) : Yields I E (Parse.define definer) := by
  intro ctx s hI
  cases hr : Parse.define definer ctx s with
  | ok e s' =>
    obtain ⟨-, -, given, d, rest, r, hparse, hinstall, rfl, rfl⟩ := define_inv hr
    exact ⟨h.define hI hparse hinstall, h.nothing⟩
  | fail f s' =>
    rcases define_fail_inv hr with
      ⟨-, rfl, rfl⟩ | ⟨-, -, rfl, rfl⟩ | ⟨-, -, cause, rest, rfl, rfl, hwhy⟩
    · exact ⟨hI, rfl⟩
    · exact ⟨hI, rfl⟩
    · have hsuffix : rest <:+ s.atoms := by
        have hleft := Definition.parse_suffix s.atoms
        rcases hwhy with hparse | ⟨given, d, hparse, -⟩
        · simpa [hparse] using hleft
        · simpa [hparse] using hleft
      refine ⟨h.left hI hsuffix, Cause.isInputMissing_of_kind ?_⟩
      rcases kind_of_refused hwhy with hkind | hkind <;> simp [hkind]

theorem callOf (h : Forms I A E) (name : String) {inputs : Procedure → Parse Expr}
    (hinputs : ∀ s p, I s → s.registry.get? name = some p → Yields I E (inputs p)) :
    Yields I E (Parse.callOf name inputs) := by
  intro ctx s hI
  cases hget : s.registry.get? name with
  | none =>
    rw [callOf_none hget]
    exact ⟨hI, rfl⟩
  | some p =>
    by_cases hbody : p.body = .definer
    · rw [callOf_definer hget hbody]
      exact h.defining p ctx s hI
    · rw [callOf_inputs hget hbody]
      exact hinputs s p hI hget ctx s hI

theorem naturalCall (h : Forms I A E) (he : Yields I E expr) (name : String) :
    Yields I E (Parse.naturalCall expr name) := by
  refine h.callOf name fun s p hI hget => ?_
  refine (naturalInputs he p.name p.arity.natural).bind fun es hes => ?_
  exact .ok (h.natural hI hget hes.1 hes.2)

theorem enclosedCall (h : Forms I A E) (he : Yields I E expr) (n : Nat) (name : String) :
    Yields I E (Parse.enclosedCall expr n name) := by
  refine h.callOf name fun s p hI hget => ?_
  refine (h.enclosedInputs he p.name n).bind fun es hes => ?_
  unfold Parse.checkInputs
  split
  · exact .fail rfl
  · split
    · next haccepts => exact .ok (h.accepted hI hget haccepts hes)
    · exact .fail rfl

/-! ### Operands -/

theorem enclosed (h : Forms I A E) (he : Yields I E expr) (n : Nat) :
    Yields I E (Parse.enclosed expr n) := by
  intro ctx s hI
  rw [enclosed_eq_calledOr, Parse.calledOr]
  split
  · exact h.enclosedCall he n _ ctx _ (h.left hI (List.tail_suffix s.atoms))
  · refine (he.bind fun e hformed => h.next.bind fun a _ => ?_) ctx s hI
    cases a with
    | none => exact .fail rfl
    | some a =>
      dsimp only
      split
      · exact .ok hformed
      · exact .fail rfl

theorem wordExpr (h : Forms I A E) (he : Yields I E expr) (n : Nat) {w : String}
    (hw : A (.word w)) : Yields I E (Parse.wordExpr expr n w) := by
  unfold Parse.wordExpr
  split
  · exact .ok (h.number _)
  · split
    · next htext => exact .ok (h.unquoted hw htext)
    · exact .ok (h.thing _)
    · exact h.enclosed he n
    · exact .fail rfl
    · exact h.naturalCall he w

theorem operand (h : Forms I A E) (he : Yields I E expr) (n : Nat) :
    Yields I E (Parse.operand expr n) := by
  refine h.next.bind fun a ha => ?_
  match a with
  | none => exact .fail rfl
  | some (.word w) => exact h.wordExpr he n (ha _ rfl)
  | some (.number x) => exact .ok (h.constant (ha _ rfl))
  | some (.list items) => exact .ok (h.constant (ha _ rfl))

/-- Whatever is read satisfies `E`. -/
theorem expression (h : Forms I A E) (n : Nat) : Yields I E (Parse.expression n) := by
  induction n with
  | zero => exact .fail rfl
  | succ n ih =>
    have hoperand := h.powers (h.signed (h.operand ih n) (n + 1)) (n + 1)
    exact h.chain .relational
      (h.chain .additive (h.chain .multiplicative hoperand (n + 1)) (n + 1)) (n + 1)

end Forms

/-! ## Calls in expressions -/

/-- What the registries with `J` have to give for calls to satisfy `P`: for each of their
procedures, the natural number of inputs and all numbers that it accepts. Entering a definition that
can be read keeps `J`. -/
structure Supports (J : Registry → Prop) (P : Procedure → Nat → Prop) : Prop where
  natural {r : Registry} {name : String} {p : Procedure} :
    J r → r.get? name = some p → P p p.arity.natural
  accepted {r : Registry} {name : String} {p : Procedure} {n : Nat} :
    J r → r.get? name = some p → p.arity.accepts n = true → P p n
  define {r r' : Registry} {atoms rest : List Atom} {given : String} {d : Definition} :
    J r → Definition.parse atoms = (.ok (given, d), rest) → r.install given d = .ok r' → J r'

namespace Supports

variable {J : Registry → Prop} {P : Procedure → Nat → Prop}

theorem forms (h : Supports J P) :
    Forms (fun s => J s.registry) (fun _ => True) (Expr.Calls P) where
  atom _ _ := trivial
  left hJ _ := hJ
  define := h.define
  constant _ := .constant _
  number _ := .constant _
  unquoted _ _ := .constant _
  thing := .thing
  nothing := .nothing
  negate := .negate
  binary := .binary
  natural hJ hget hlength hcalls := .call (hlength ▸ h.natural hJ hget) hcalls
  accepted hJ hget haccepts hcalls := .call (h.accepted hJ hget haccepts) hcalls

/-- Every call in what is read satisfies `P`. -/
theorem expression (h : Supports J P) (n : Nat) :
    Yields (fun s => J s.registry) (Expr.Calls P) (Parse.expression n) :=
  h.forms.expression n

variable {ctx : Context} {atoms : List Atom} {r : Registry} {s : State}

theorem parseExpr_ok (h : Supports J P) (hr : J r) {e : Expr}
    (hread : parseExpr ctx ⟨atoms, r⟩ = .ok e s) : J s.registry ∧ e.Calls P := by
  have hyields := h.expression atoms.length ctx ⟨atoms, r⟩ hr
  rwa [show Parse.expression atoms.length ctx ⟨atoms, r⟩ = .ok e s from hread] at hyields

theorem parseExpr_fail (h : Supports J P) (hr : J r) {f : Fault}
    (hread : parseExpr ctx ⟨atoms, r⟩ = .fail f s) :
    J s.registry ∧ f.cause.isInputMissing = false := by
  have hyields := h.expression atoms.length ctx ⟨atoms, r⟩ hr
  rwa [show Parse.expression atoms.length ctx ⟨atoms, r⟩ = .fail f s from hread] at hyields

/-- A property of procedures that all definitions have. -/
theorem ofAll {Q : Procedure → Prop} (hdefined : ∀ (d : Definition) given, Q (d.entry given)) :
    Supports (fun r => ∀ {name p}, r.get? name = some p → Q p) fun p _ => Q p where
  natural hr hget := hr hget
  accepted hr hget _ := hr hget
  define {_ _ _ _ given d} hr _ hinstall := by
    obtain ⟨rfl, -⟩ := Registry.install_ok hinstall
    intro name p hget
    rw [NameTable.get?_insert] at hget
    split at hget
    · rw [← Option.some.inj hget]
      exact hdefined d given
    · exact hr hget

end Supports

end Parse

end TurtleLogo
