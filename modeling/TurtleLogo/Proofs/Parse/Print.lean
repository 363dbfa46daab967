import TurtleLogo.Proofs.Parse.Grammar
import TurtleLogo.Run.Basic

set_option autoImplicit false

/-! # Printing and reading back

`Expr.print` writes an expression with parentheses around an operand exactly where the operand
binds looser than its place asks for. Reading what is printed gives the expression back, and leaves
what follows it and the state alone. -/

namespace TurtleLogo

/-! ## The printer -/

namespace Expr

/-- How tightly an expression binds when it is printed. -/
def rank : Expr → Nat
  | binary op _ _ => op.level.rank
  | negate _ => 4
  | _ => 5

/-- The text `ts` of an expression in a place of rank `k`: in parentheses if it binds looser. -/
def fit (e : Expr) (k : Nat) (ts : List Atom) : List Atom :=
  if e.rank < k then .word "(" :: (ts ++ [.word ")"]) else ts

mutual

/-- Prints an expression; `spell` gives the names of procedures. -/
def print (spell : Procedure → String) : Expr → List Atom
  | constant (.word text) => [.word ("\"" ++ text)]
  | constant a => [a]
  | thing name => [.word (":" ++ name)]
  | negate e => .word "-" :: e.fit 4 (e.print spell)
  | binary op left right =>
    left.fit op.level.leftRank (left.print spell) ++
      .word op.symbol :: right.fit op.level.rightRank (right.print spell)
  | call p inputs => .word "(" :: .word (spell p) :: (printInputs spell inputs ++ [.word ")"])
  | nothing => []

/-- Prints the inputs of a call, those that are no operands in parentheses. -/
def printInputs (spell : Procedure → String) : List Expr → List Atom
  | [] => []
  | e :: es => e.fit 5 (e.print spell) ++ printInputs spell es

end

/-- Every call in the expression is of a procedure that the registry has under its spelling, other
than `TO`, with a number of inputs that it accepts; and there is no definition in it. -/
inductive Printable (r : Registry) (spell : Procedure → String) : Expr → Prop
  | constant (a : Atom) : Printable r spell (.constant a)
  | thing (name : String) : Printable r spell (.thing name)
  | negate {e : Expr} : Printable r spell e → Printable r spell (.negate e)
  | binary (op : Operator) {left right : Expr} : Printable r spell left →
      Printable r spell right → Printable r spell (.binary op left right)
  | call {p : Procedure} {inputs : List Expr} : r.get? (spell p) = some p → p.body ≠ .definer →
      p.arity.accepts inputs.length = true → (∀ e ∈ inputs, Printable r spell e) →
      Printable r spell (.call p inputs)

end Expr

/-! ## Reading back -/

section

open Parse

variable {r : Registry} {spell : Procedure → String} {ts : List Atom} {e : Expr}

theorem Parse.Phrase.fit (hr : r.Named) (h : Phrase r e.rank ts e) {k : Nat} (hk : k ≤ 5) :
    Phrase r k (e.fit k ts) e := by
  unfold Expr.fit
  split
  · exact (h.enclosed hr).mono hk
  · next hrank => exact h.mono (Nat.not_lt.mp hrank)

theorem Parse.Phrase.constant (a : Atom) :
    Phrase r 5 ((Expr.constant a).print spell) (.constant a) := by
  cases a with
  | number x => exact Phrase.datum rfl
  | word text => exact Phrase.quoted text
  | list items => exact Phrase.datum rfl

/-- The printed inputs of a call are phrases for the inputs. -/
theorem Parse.Inputs.print (hr : r.Named) {es : List Expr}
    (h : ∀ e ∈ es, Phrase r e.rank (e.print spell) e) :
    Inputs r (Expr.printInputs spell es) es := by
  induction es with
  | nil => exact .nil
  | cons e es ih =>
    have he := (h e List.mem_cons_self).fit hr (Nat.le_refl 5)
    exact .cons he (ih fun e' he' => h e' (List.mem_cons_of_mem e he'))

/-- What is printed is a phrase for the expression. -/
theorem Expr.Printable.phrase (hr : r.Named) (h : e.Printable r spell) :
    Phrase r e.rank (e.print spell) e := by
  induction h with
  | constant a => exact Phrase.constant a
  | thing name => exact Phrase.thing name
  | negate _ ih => exact (ih.fit hr (by decide)).negate
  | binary op _ _ ihleft ihright =>
    have hleft := ihleft.fit hr op.level.leftRank_le
    have hright := ihright.fit hr op.level.rightRank_le
    exact Phrase.binary op hleft hright
  | call hname hbody hcount _ ih => exact (Inputs.print hr ih).call hname hbody hcount

end

/-- A printed expression is read back, whatever follows that does not go on with it: nothing else is
read, and nothing changes. -/
theorem Engine.parse_print {w : World} {spell : Procedure → String} {e : Expr} {rest : List Atom}
    (hnames : w.procedures.Named) (he : e.Printable w.procedures spell)
    (hrest : Parse.leading rest = none) :
    Engine.parse (e.print spell ++ rest) w = .done (e, rest) w := by
  have hlen : (e.print spell).length ≤ (e.print spell ++ rest).length := by
    rw [List.length_append]
    exact Nat.le_add_right _ _
  have hread : parseExpr w.parseContext ⟨e.print spell ++ rest, w.procedures⟩
      = .ok e ⟨rest, w.procedures⟩ := (he.phrase hnames).expression hlen hrest
  rw [Engine.parse, hread]

theorem Registry.standard_get?_or :
    Registry.standard.get? "OR" = some ⟨"OR", .deferred .disjunction, .unbounded 2 0⟩ := by
  simp only [standard, register, NameTable.get?_insert]
  rw [if_neg (by decide)]
  simp only [Deferred.catalogue, List.foldl, registerAll, register, NameTable.get?_insert]
  rw [if_pos (by decide)]
  rfl

/-- A sum with a sign, a call and parentheses where they are needed. -/
theorem Engine.parse_print_mixed : ∃ e : Expr,
    e.print Procedure.name =
      [.word ":a", .word "-", .word "-", .word ":b", .word "-", .word "(", .word "OR", .word "(",
        .word "-", .word ":c", .word ")", .word "\"d", .word ")", .word "^", .word "(", .word ":e",
        .word "-", .word ":f", .word ")"] ∧
    Engine.parse (e.print Procedure.name ++ [.word "fd"]) {} = .done (e, [.word "fd"]) {} := by
  have hcall : Expr.Printable Registry.standard Procedure.name
      (.call ⟨"OR", .deferred .disjunction, .unbounded 2 0⟩
        [.negate (.thing "c"), .constant (.word "d")]) := by
    refine .call Registry.standard_get?_or nofun rfl ?_
    rw [List.forall_mem_cons, List.forall_mem_singleton]
    exact ⟨.negate (.thing "c"), .constant (.word "d")⟩
  have he := Expr.Printable.binary .subtract
    (.binary .subtract (.thing "a") (.negate (.thing "b")))
    (.binary .power hcall (.binary .subtract (.thing "e") (.thing "f")))
  exact ⟨_, rfl, Engine.parse_print Registry.standard_named he rfl⟩

end TurtleLogo
