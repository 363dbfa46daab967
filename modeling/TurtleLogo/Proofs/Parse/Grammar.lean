import TurtleLogo.Proofs.Parse.Basic
import TurtleLogo.Proofs.Parse.Name

set_option autoImplicit false

/-! # Phrases

The atoms in which an expression can be written. `Phrase r k ts e` says that `ts` is read as `e`
where an expression of rank `k` is looked for, unless an operator follows that goes on with it. Its
lemmas are the rules of the grammar: signs, powers, chains of operators, parentheses and calls. -/

namespace TurtleLogo

/-- How tightly the operators of a level bind. Signs have the next rank, 4, and what can stand
anywhere without parentheses has rank 5. -/
def Level.rank : Level → Nat
  | relational => 0
  | additive => 1
  | multiplicative => 2
  | power => 3

/-- The rank that an operator of the level asks of its left operand: operators group to the left,
powers do not. -/
def Level.leftRank : Level → Nat
  | power => 4
  | level => level.rank

/-- The rank that an operator of the level asks of its right operand. -/
def Level.rightRank : Level → Nat
  | power => 3
  | level => level.rank + 1

theorem Level.leftRank_le (level : Level) : level.leftRank ≤ 5 := by
  cases level <;> decide

theorem Level.rightRank_le (level : Level) : level.rightRank ≤ 5 := by
  cases level <;> decide

theorem Operator.ofWord?_symbol (op : Operator) : ofWord? op.symbol = some op := by
  cases op <;> rfl

namespace Parse

variable {r : Registry} {ctx : Context} {ts us rest : List Atom} {e left right : Expr}
  {level : Level} {m : Parse Expr} {n j k : Nat}

/-! ## What may follow -/

/-- No operator of rank `k` or more comes next. -/
def Follows (k : Nat) (rest : List Atom) : Prop :=
  ∀ op, leading rest = some op → op.level.rank < k

theorem Follows.of_none (h : leading rest = none) : Follows k rest := by
  intro op hop
  rw [h] at hop
  exact absurd hop (by simp)

theorem Follows.succ (h : Follows k rest) : Follows (k + 1) rest :=
  fun op hop => Nat.lt_succ_of_lt (h op hop)

theorem Follows.symbol {op : Operator} (h : op.level.rank < k) (us : List Atom) :
    Follows k (.word op.symbol :: us) := by
  intro op' hop
  have hsymbol : leading (.word op.symbol :: us) = some op := op.ofWord?_symbol
  rw [hsymbol] at hop
  obtain rfl := Option.some.inj hop
  exact h

theorem Follows.takeOperator (h : Follows level.rank rest) :
    takeOperator level ctx ⟨rest, r⟩ = .ok none ⟨rest, r⟩ :=
  takeOperator_skip fun op hop hlevel => by
    have hlt := h op hop
    rw [hlevel] at hlt
    exact Nat.lt_irrefl _ hlt

theorem takeOperator_symbol {op : Operator} (h : op.level = level) :
    takeOperator level ctx ⟨.word op.symbol :: us, r⟩ = .ok (some op) ⟨us, r⟩ :=
  takeOperator_cons rfl op.ofWord?_symbol h

/-! ## Reading a text -/

/-- The reader takes the text off as the expression, if no operator of rank `k` or more follows. -/
def Reads (r : Registry) (k : Nat) (m : Parse Expr) (ts : List Atom) (e : Expr) : Prop :=
  ∀ ctx rest, Follows k rest → m ctx ⟨ts ++ rest, r⟩ = .ok e ⟨rest, r⟩

/-- Reading a chain comes past the text with the expression to its left. What follows may go on
with the chain. -/
def Spine (r : Registry) (level : Level) (m : Parse Expr) (ts : List Atom) (e : Expr) : Prop :=
  ∀ ctx rest j, Follows (level.rank + 1) rest → ts.length ≤ j →
    ∃ j', j ≤ j' + ts.length ∧
      chain level m j ctx ⟨ts ++ rest, r⟩ = chainFrom level m j' e ctx ⟨rest, r⟩

theorem chainFrom_end (h : Follows level.rank rest) (j : Nat) (e : Expr) :
    chainFrom level m j e ctx ⟨rest, r⟩ = .ok e ⟨rest, r⟩ := by
  cases j with
  | zero => rfl
  | succ j => exact bind_ok h.takeOperator _

theorem Reads.spine (h : Reads r (level.rank + 1) m ts e) : Spine r level m ts e := by
  intro ctx rest j hrest _
  refine ⟨j, Nat.le_add_right _ _, ?_⟩
  exact bind_ok (h ctx rest hrest) _

theorem Spine.reads (h : Spine r level m ts e) (hj : ts.length ≤ j) :
    Reads r level.rank (chain level m j) ts e := by
  intro ctx rest hrest
  obtain ⟨j', -, heq⟩ := h ctx rest j hrest.succ hj
  rw [heq]
  exact chainFrom_end hrest j' e

theorem Spine.binary {op : Operator} (hop : op.level = level) (hleft : Spine r level m ts left)
    (hright : Reads r (level.rank + 1) m us right) :
    Spine r level m (ts ++ .word op.symbol :: us) (.binary op left right) := by
  intro ctx rest j hrest hj
  rw [List.length_append, List.length_cons] at hj
  have hsymbol : Follows (level.rank + 1) (.word op.symbol :: (us ++ rest)) :=
    Follows.symbol (by rw [hop]; exact Nat.lt_succ_self _) _
  obtain ⟨j', hj', heq⟩ := hleft ctx (.word op.symbol :: (us ++ rest)) j hsymbol (by omega)
  -- The operator and its right operand use up one more of the rounds that are left.
  obtain ⟨j'', rfl⟩ : ∃ j'', j' = j'' + 1 := ⟨j' - 1, by omega⟩
  refine ⟨j'', by rw [List.length_append, List.length_cons]; omega, ?_⟩
  rw [List.append_assoc, List.cons_append, heq, chainFrom, bind_ok (takeOperator_symbol hop)]
  exact bind_ok (hright ctx rest hrest) _

/-! ## Readers of each rank -/

/-- Reads an operand with its signs. -/
def factor (n : Nat) : Parse Expr :=
  signed (operand (expression n) n) (n + 1)

/-- Reads powers. -/
def exponential (n : Nat) : Parse Expr :=
  powers (factor n) (n + 1)

/-- Reads a chain of products. -/
def term (n : Nat) : Parse Expr :=
  chain .multiplicative (exponential n) (n + 1)

/-- Reads a chain of sums. -/
def sum (n : Nat) : Parse Expr :=
  chain .additive (term n) (n + 1)

theorem expression_succ (n : Nat) : expression (n + 1) = chain .relational (sum n) (n + 1) := rfl

/-- The reader for expressions of rank `k` reads the text. Powers and signs are read with any bound
that the text keeps within. -/
def ReadAt (r : Registry) (n : Nat) (ts : List Atom) (e : Expr) : Nat → Prop
  | 0 => Spine r .relational (sum n) ts e
  | 1 => Spine r .additive (term n) ts e
  | 2 => Spine r .multiplicative (exponential n) ts e
  | 3 => ∀ j, ts.length ≤ j → Reads r 3 (powers (factor n) j) ts e
  | 4 => ∀ j, ts.length ≤ j → Reads r 4 (signed (operand (expression n) n) j) ts e
  | _ => Reads r 5 (operand (expression n) n) ts e

theorem Reads.powers (h : Reads r 4 m ts e) (j : Nat) : Reads r 3 (powers m j) ts e := by
  intro ctx rest hrest
  cases j with
  | zero => exact h ctx rest hrest.succ
  | succ j =>
    have hend : takeOperator .power ctx ⟨rest, r⟩ = .ok none ⟨rest, r⟩ := Follows.takeOperator hrest
    rw [Parse.powers, bind_ok (h ctx rest hrest.succ), bind_ok hend]
    rfl

theorem Reads.signed (h : Reads r 5 m ts e) (hne : ts ≠ []) (hplain : leading ts = none) (j : Nat) :
    Reads r 4 (signed m j) ts e := by
  intro ctx rest hrest
  have hminus : ∀ us, ts ++ rest ≠ .word "-" :: us := by
    intro us heq
    have hsubtract : leading (.word "-" :: us) = some .subtract := Operator.subtract.ofWord?_symbol
    rw [← leading_append_of_ne_nil hne rest, heq, hsubtract] at hplain
    exact absurd hplain (by simp)
  rw [signed_plain m j hminus]
  exact h ctx rest hrest.succ

/-- What is read as tighter is read as looser too. -/
theorem ReadAt.loosen (hlen : ts.length ≤ n + 1) (hne : ts ≠ [])
    (hplain : 5 ≤ k + 1 → leading ts = none) (h : ReadAt r n ts e (k + 1)) : ReadAt r n ts e k := by
  -- What one reader takes off is an operand, or a chain without operators, for the next looser one.
  match k with
  | 0 => exact (Spine.reads h hlen).spine
  | 1 => exact (Spine.reads h hlen).spine
  | 2 => exact (h (n + 1) hlen).spine
  | 3 => exact fun j _ => (h (n + 1) hlen).powers j
  | 4 => exact fun j _ => Reads.signed h hne (hplain (by decide)) j
  | _ + 5 => exact h

/-! ## Reading parentheses -/

theorem operand_open (expr : Parse Expr) (n : Nat) :
    operand expr n ctx ⟨.word "(" :: us, r⟩ = enclosed expr n ctx ⟨us, r⟩ := rfl

theorem enclosed_group {expr : Parse Expr} {s : State} (hname : enclosedName? s = none)
    (hread : expr ctx s = .ok e ⟨.word ")" :: rest, r⟩) :
    enclosed expr n ctx s = .ok e ⟨rest, r⟩ := by
  rw [enclosed, hname]
  exact bind_ok hread _

theorem enclosed_call {expr : Parse Expr} {s : State} {name : String}
    (hname : enclosedName? s = some name) :
    enclosed expr n ctx s = enclosedCall expr n name ctx { s with atoms := s.atoms.tail } := by
  rw [enclosed, hname]

theorem enclosedInputs_cons {expr : Parse Expr} {name : String} {a : Atom} {es : List Expr}
    {s s' : State} (hclose : a.isWord ")" = false) (hread : expr ctx ⟨a :: us, r⟩ = .ok e s)
    (hmore : enclosedInputs expr name j ctx s = .ok es s') :
    enclosedInputs expr name (j + 1) ctx ⟨a :: us, r⟩ = .ok (e :: es) s' := by
  have hpeek : peek ctx ⟨a :: us, r⟩ = .ok (some a) ⟨a :: us, r⟩ := rfl
  rw [enclosedInputs, bind_ok hpeek]
  simp only [hclose, Bool.false_eq_true, if_false]
  exact (bind_ok hread _).trans (bind_ok hmore _)

theorem checkInputs_ok {p : Procedure} {es : List Expr} (h : p.arity.accepts es.length = true)
    (s : State) : checkInputs p es ctx s = .ok (.call p es) s := by
  have hleast : ¬ es.length < p.arity.least := by
    simp only [Arity.accepts, Bool.and_eq_true, decide_eq_true_eq] at h
    exact Nat.not_lt.mpr h.1
  rw [checkInputs, if_neg hleast, if_pos h]
  rfl

/-! ## Phrases -/

/-- A phrase can begin with the atom: it is a number, a list, or a word that neither closes a
parenthesis nor can be the name of a procedure. -/
def Opening (a : Atom) : Prop :=
  ∀ w, a = .word w → w ≠ ")" ∧ Definition.isName w = false

/-- The atoms `ts` are a way to write `e` that binds as tightly as `k`. -/
structure Phrase (r : Registry) (k : Nat) (ts : List Atom) (e : Expr) : Prop where
  opens : ∃ a us, ts = a :: us ∧ Opening a
  plain : 5 ≤ k → leading ts = none
  read : ∀ n, ts.length ≤ n + 1 → ReadAt r n ts e k

namespace Phrase

theorem ne_nil (h : Phrase r k ts e) : ts ≠ [] := by
  obtain ⟨a, us, rfl, -⟩ := h.opens
  exact List.cons_ne_nil a us

theorem loosen (h : Phrase r (k + 1) ts e) : Phrase r k ts e where
  opens := h.opens
  plain hk := h.plain (Nat.le_succ_of_le hk)
  read n hlen := (h.read n hlen).loosen hlen h.ne_nil h.plain

theorem mono {k' : Nat} (hle : k ≤ k') (h : Phrase r k' ts e) : Phrase r k ts e := by
  induction hle with
  | refl => exact h
  | step _ ih => exact ih h.loosen

/-- A phrase of any rank is read as an expression. -/
theorem expression (h : Phrase r k ts e) (hlen : ts.length ≤ n) (hrest : leading rest = none) :
    expression n ctx ⟨ts ++ rest, r⟩ = .ok e ⟨rest, r⟩ := by
  cases n with
  | zero => exact absurd (List.length_eq_zero_iff.mp (Nat.le_zero.mp hlen)) h.ne_nil
  | succ n =>
    have hspine : Spine r .relational (sum n) ts e := (h.mono (Nat.zero_le k)).read n hlen
    rw [expression_succ]
    exact hspine.reads hlen ctx rest (.of_none hrest)

/-! ## Operators -/

theorem negate (h : Phrase r 4 ts e) : Phrase r 4 (.word "-" :: ts) (.negate e) where
  opens := ⟨_, ts, rfl, fun w hw => by obtain rfl := Atom.word.inj hw; decide⟩
  plain hk := absurd hk (by decide)
  read n hlen := by
    intro j hj ctx rest hrest
    rw [List.length_cons] at hlen hj
    obtain ⟨j, rfl⟩ : ∃ j', j = j' + 1 := ⟨j - 1, by omega⟩
    have hread := h.read n (by omega) j (by omega) ctx rest hrest
    exact (signed_minus _ j rfl).trans (bind_ok hread _)

theorem opens_append (h : Phrase r k ts e) (us : List Atom) :
    ∃ a vs, ts ++ us = a :: vs ∧ Opening a := by
  obtain ⟨a, vs, rfl, ha⟩ := h.opens
  exact ⟨a, vs ++ us, rfl, ha⟩

theorem power {op : Operator} (hop : op.level = .power) (hleft : Phrase r 4 ts left)
    (hright : Phrase r 3 us right) (hlen : ts.length + (us.length + 1) ≤ n + 1) :
    ReadAt r n (ts ++ .word op.symbol :: us) (.binary op left right) 3 := by
  intro j hj ctx rest hrest
  rw [List.length_append, List.length_cons] at hj
  obtain ⟨j, rfl⟩ : ∃ j', j = j' + 1 := ⟨j - 1, by omega⟩
  have hsymbol : Follows 4 (.word op.symbol :: (us ++ rest)) :=
    Follows.symbol (by rw [hop]; decide) _
  have hreadLeft := hleft.read n (by omega) (n + 1) (by omega) ctx _ hsymbol
  have hreadRight := hright.read n (by omega) j (by omega) ctx rest hrest
  rw [List.append_assoc, List.cons_append, powers]
  exact (bind_ok hreadLeft _).trans
    ((bind_ok (takeOperator_symbol hop) _).trans (bind_ok hreadRight _))

/-- An operator between operands of the ranks that it asks for. -/
theorem binary (op : Operator) (hleft : Phrase r op.level.leftRank ts left)
    (hright : Phrase r op.level.rightRank us right) :
    Phrase r op.level.rank (ts ++ .word op.symbol :: us) (.binary op left right) where
  opens := hleft.opens_append _
  plain hk := by
    cases hlevel : op.level <;> rw [hlevel] at hk <;> exact absurd hk (by decide)
  read n hlen := by
    rw [List.length_append, List.length_cons] at hlen
    -- The right operand is left to the reader of the next rank, except that a power takes powers.
    cases hlevel : op.level with
    | relational =>
      rw [hlevel] at hleft hright
      have hreadRight : Spine r .additive (term n) us right := hright.read n (by omega)
      exact Spine.binary hlevel (hleft.read n (by omega)) (hreadRight.reads (by omega))
    | additive =>
      rw [hlevel] at hleft hright
      have hreadRight : Spine r .multiplicative (exponential n) us right := hright.read n (by omega)
      exact Spine.binary hlevel (hleft.read n (by omega)) (hreadRight.reads (by omega))
    | multiplicative =>
      rw [hlevel] at hleft hright
      have hreadRight := hright.read n (by omega) (n + 1) (by omega)
      exact Spine.binary hlevel (hleft.read n (by omega)) hreadRight
    | power =>
      rw [hlevel] at hleft hright
      exact power hlevel hleft hright hlen

/-! ## Operands -/

theorem datum {a : Atom} (h : a.word? = none) : Phrase r 5 [a] (.constant a) where
  opens := by
    refine ⟨a, [], rfl, fun w hw => ?_⟩
    rw [hw] at h
    exact absurd h (by simp [Atom.word?])
  plain _ := by
    simp [leading, operator?, h]
  read n _ ctx rest _ := by
    cases a with
    | number x => rfl
    | list items => rfl
    | word w => exact absurd h (by simp [Atom.word?])

/-- A quoted or colon word is a phrase for what it is read as. -/
theorem marked {w : String} {c : Char} {cs : List Char} (hw : w.toList = c :: cs)
    (hc : c = '"' ∨ c = ':') (h : ∀ n, wordExpr (Parse.expression n) n w = Parse.pure e) :
    Phrase r 5 [.word w] e where
  opens := by
    refine ⟨_, [], rfl, ?_⟩
    rintro _ ⟨⟩
    constructor
    · rcases hc with rfl | rfl <;> exact ne_of_head hw (by decide)
    · rcases hc with rfl | rfl <;> simp [Definition.isName, hw]
  plain _ := by
    refine Operator.ofWord?_eq_none hw fun op => ?_
    rcases hc with rfl | rfl <;> cases op <;> decide
  read n _ ctx rest _ := congrFun (congrFun (h n) ctx) ⟨rest, r⟩

theorem quoted (text : String) : Phrase r 5 [.word ("\"" ++ text)] (.constant (.word text)) := by
  have hw : ("\"" ++ text).toList = '"' :: text.toList := by simp
  have hnumeral := numeral?_eq_none hw (by decide) (by decide) (by decide)
  refine marked hw (.inl rfl) fun n => ?_
  simp [wordExpr, hnumeral, hw]

theorem thing (name : String) : Phrase r 5 [.word (":" ++ name)] (.thing name) := by
  have hw : (":" ++ name).toList = ':' :: name.toList := by simp
  have hnumeral := numeral?_eq_none hw (by decide) (by decide) (by decide)
  refine marked hw (.inr rfl) fun n => ?_
  simp [wordExpr, hnumeral, hw]

/-! ## Parentheses -/

theorem enclosedName?_eq_none (hr : r.Named) (h : Phrase r k ts e) (rest : List Atom) :
    enclosedName? ⟨ts ++ rest, r⟩ = none := by
  rw [Option.eq_none_iff_forall_ne_some]
  intro name hname
  obtain ⟨us, hatoms, hknown, -⟩ := enclosedName?_eq_some.mp hname
  obtain ⟨a, vs, rfl, ha⟩ := h.opens
  have hfalse := (ha name (List.cons.inj hatoms).1).2
  rw [hr name hknown] at hfalse
  exact absurd hfalse (by decide)

theorem enclosed (hr : r.Named) (h : Phrase r k ts e) :
    Phrase r 5 (.word "(" :: (ts ++ [.word ")"])) e where
  opens := ⟨_, _, rfl, fun w hw => by obtain rfl := Atom.word.inj hw; decide⟩
  plain _ := rfl
  read n hlen ctx rest _ := by
    rw [List.length_cons, List.length_append, List.length_singleton] at hlen
    have hread : Parse.expression n ctx ⟨ts ++ .word ")" :: rest, r⟩
        = .ok e ⟨.word ")" :: rest, r⟩ := h.expression (by omega) rfl
    rw [List.cons_append, List.append_assoc, List.singleton_append]
    exact (operand_open _ n).trans (enclosed_group (h.enclosedName?_eq_none hr _) hread)

end Phrase

/-! ## Calls -/

/-- The atoms are a way to write the inputs of a call in parentheses. -/
inductive Inputs (r : Registry) : List Atom → List Expr → Prop
  | nil : Inputs r [] []
  | cons {ts us : List Atom} {e : Expr} {es : List Expr} :
      Phrase r 5 ts e → Inputs r us es → Inputs r (ts ++ us) (e :: es)

theorem Inputs.leading_eq_none {es : List Expr} (h : Inputs r ts es) (rest : List Atom) :
    leading (ts ++ .word ")" :: rest) = none := by
  cases h with
  | nil => rfl
  | cons he hes =>
    rw [List.append_assoc, leading_append_of_ne_nil he.ne_nil]
    exact he.plain (Nat.le_refl 5)

/-- Inputs are read one by one, up to the closing parenthesis. -/
theorem Inputs.enclosedInputs {es : List Expr} (h : Inputs r ts es) {name : String}
    (hj : ts.length < j) (hn : ts.length ≤ n) :
    enclosedInputs (expression n) name j ctx ⟨ts ++ .word ")" :: rest, r⟩ = .ok es ⟨rest, r⟩ := by
  induction h generalizing j with
  | nil =>
    cases j with
    | zero => exact absurd hj (Nat.not_lt_zero _)
    | succ j => rfl
  | @cons ts us e es he hes ih =>
    obtain ⟨a, vs, rfl, ha⟩ := he.opens
    rw [List.length_append, List.length_cons] at hj hn
    obtain ⟨j, rfl⟩ : ∃ j', j = j' + 1 := ⟨j - 1, by omega⟩
    have hread : expression n ctx ⟨(a :: vs) ++ (us ++ .word ")" :: rest), r⟩
        = .ok e ⟨us ++ .word ")" :: rest, r⟩ :=
      he.expression (by rw [List.length_cons]; omega) (hes.leading_eq_none rest)
    have hclose : a.isWord ")" = false := by
      cases a with
      | word w => simpa [Atom.isWord] using (ha w rfl).1
      | number x => rfl
      | list items => rfl
    rw [List.append_assoc]
    exact enclosedInputs_cons hclose hread (ih (by omega) (by omega))

/-- A call in parentheses, of any procedure but the one that defines procedures. -/
theorem Inputs.call {name : String} {p : Procedure} {es : List Expr} (h : Inputs r ts es)
    (hname : r.get? name = some p) (hbody : p.body ≠ .definer)
    (hcount : p.arity.accepts es.length = true) :
    Phrase r 5 (.word "(" :: .word name :: (ts ++ [.word ")"])) (.call p es) where
  opens := ⟨_, _, rfl, fun w hw => by obtain rfl := Atom.word.inj hw; decide⟩
  plain _ := rfl
  read n hlen ctx rest _ := by
    rw [List.length_cons, List.length_cons, List.length_append, List.length_singleton] at hlen
    have hknown : r.contains name = true := by
      rw [NameTable.contains, hname]
      rfl
    have hcalled : enclosedName? ⟨.word name :: (ts ++ .word ")" :: rest), r⟩ = some name :=
      enclosedName?_eq_some.mpr ⟨_, rfl, hknown, h.leading_eq_none rest⟩
    have hinputs : Parse.enclosedInputs (expression n) p.name n ctx ⟨ts ++ .word ")" :: rest, r⟩
        = .ok es ⟨rest, r⟩ := h.enclosedInputs (by omega) (by omega)
    rw [List.cons_append, List.cons_append, List.append_assoc, List.singleton_append]
    calc operand (expression n) n ctx ⟨.word "(" :: .word name :: (ts ++ .word ")" :: rest), r⟩
        = enclosed (expression n) n ctx ⟨.word name :: (ts ++ .word ")" :: rest), r⟩ := rfl
      _ = enclosedCall (expression n) n name ctx ⟨ts ++ .word ")" :: rest, r⟩ :=
        enclosed_call hcalled
      _ = (Parse.enclosedInputs (expression n) p.name n >>= checkInputs p) ctx
            ⟨ts ++ .word ")" :: rest, r⟩ := callOf_inputs hname hbody
      _ = checkInputs p es ctx ⟨rest, r⟩ := bind_ok hinputs _
      _ = .ok (.call p es) ⟨rest, r⟩ := checkInputs_ok hcount _

end Parse

end TurtleLogo
