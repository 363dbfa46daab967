import TurtleLogo.Proofs.Parse.Grammar
import TurtleLogo.Proofs.Parse.Metered
import TurtleLogo.Proofs.Run.Sequence

set_option autoImplicit false

/-! # Progress

An expression that is read takes atoms, and all operators that could go on with it. So an operator
is never left to begin the next instruction, and every instruction of a list takes an atom: the list
comes to an end after as many instructions as it has atoms at most, if each of them does. -/

namespace TurtleLogo

theorem Level.rank_injective : Function.Injective Level.rank := by
  intro level level' h
  cases level <;> cases level' <;> first | rfl | exact absurd h (by decide)

namespace Parse

variable {level : Level} {m : Parse Expr} {atoms rest : List Atom} {n k : Nat}

/-- No operator comes next exactly if what comes next is no word that writes one. -/
theorem leading_eq_none_iff :
    leading rest = none ↔ ∀ w ts, rest = .word w :: ts → isInfix w = false := by
  cases rest with
  | nil => simp [leading]
  | cons a ts =>
    cases a with
    | word w => simp [leading, operator?, Atom.word?, isInfix]
    | number x => simp [leading, operator?, Atom.word?]
    | list items => simp [leading, operator?, Atom.word?]

/-! ## Operators that are left -/

theorem Follows.nil : Follows k [] :=
  .of_none rfl

/-- Operators of one rank less are left out too if none of that level comes next. -/
theorem Follows.strengthen (h : Follows (level.rank + 1) rest)
    (hlevel : ∀ op, leading rest = some op → op.level ≠ level) : Follows level.rank rest := by
  intro op hop
  have hne : op.level.rank ≠ level.rank := fun heq => hlevel op hop (Level.rank_injective heq)
  exact Nat.lt_of_le_of_ne (Nat.le_of_lt_succ (h op hop)) hne

/-- No operator binds more tightly than powers. -/
theorem follows_powers (rest : List Atom) : Follows (Level.power.rank + 1) rest := by
  intro op _
  cases op.level <;> decide

/-- If no more than `n` atoms are left, the reader takes all operators of rank `k` or more that go
on with what it reads. -/
def Clears (n k : Nat) (m : Parse Expr) : Prop :=
  ∀ ⦃ctx s e s'⦄, s.atoms.length ≤ n → m ctx s = .ok e s' → Follows k s'.atoms

theorem chainFrom_clears (hm : Clears n (level.rank + 1) m) (he : Effective Expr m m) :
    ∀ (j : Nat) (left : Expr) {ctx : Context} {s : State} {e : Expr} {s' : State}, j ≤ n →
      s.atoms.length ≤ j → Follows (level.rank + 1) s.atoms →
      chainFrom level m j left ctx s = .ok e s' → Follows level.rank s'.atoms := by
  intro j
  induction j with
  | zero =>
    intro left ctx s e s' _ hs _ h
    obtain ⟨rfl, rfl⟩ := Result.ok.inj h
    rw [List.eq_nil_of_length_eq_zero (Nat.le_zero.mp hs)]
    exact .nil
  | succ j ih =>
    intro left ctx s e s' hj hs hfollows h
    rcases takeOperator_cases level ctx s with ⟨a, ts, op, hatoms, -, -, htake⟩ | ⟨hnone, hskip⟩
    · -- The operator makes up for the round that its right operand takes.
      rw [chainFrom, bind_ok htake] at h
      obtain ⟨right, s₁, hright, hmore⟩ := bind_eq_ok.mp h
      rw [hatoms, List.length_cons] at hs
      have hle : s₁.atoms.length ≤ ts.length := he.length_le hright
      have hclear : Follows (level.rank + 1) s₁.atoms := hm (by dsimp only; omega) hright
      exact ih (.binary op left right) (by omega) (by omega) hclear hmore
    · rw [chainFrom, bind_ok hskip] at h
      obtain ⟨rfl, rfl⟩ := Result.ok.inj h
      exact hfollows.strengthen hnone

theorem chain_clears (level : Level) (hm : Clears n (level.rank + 1) m) (he : Effective Expr m m) :
    Clears n level.rank (chain level m n) := by
  intro ctx s e s' hs h
  obtain ⟨left, s₁, hleft, hmore⟩ := bind_eq_ok.mp h
  exact chainFrom_clears hm he n left (Nat.le_refl n) ((he.length_le hleft).trans hs) (hm hs hleft)
    hmore

theorem powers_clears (he : Effective Expr m m) (n : Nat) :
    Clears n Level.power.rank (powers m n) := by
  induction n with
  | zero =>
    intro ctx s e s' hs h
    have hle := (he.length_le h).trans hs
    rw [List.eq_nil_of_length_eq_zero (Nat.le_zero.mp hle)]
    exact .nil
  | succ n ih =>
    intro ctx s e s' hs h
    obtain ⟨left, s₁, hleft, hmore⟩ := bind_eq_ok.mp h
    have hle := he.length_le hleft
    rcases takeOperator_cases .power ctx s₁ with ⟨a, ts, op, hatoms, -, -, htake⟩ | ⟨hnone, hskip⟩
    · rw [bind_ok htake] at hmore
      obtain ⟨right, s₂, hright, hdone⟩ := bind_eq_ok.mp hmore
      obtain ⟨rfl, rfl⟩ := Result.ok.inj hdone
      rw [hatoms, List.length_cons] at hle
      exact ih (by dsimp only; omega) hright
    · rw [bind_ok hskip] at hmore
      obtain ⟨rfl, rfl⟩ := Result.ok.inj hmore
      exact (follows_powers _).strengthen hnone

/-- An expression takes every operator that could go on with it. -/
theorem expression_clears (n : Nat) : Clears n 0 (expression n) := by
  cases n with
  | zero => intro ctx s e s' _ h; simp [expression, fail] at h
  | succ n =>
    have hexpr := effective_congruence.expression n
    have hsigned := effective_congruence.signed (effective_congruence.operand hexpr n) (n + 1)
    have hpowers := effective_congruence.powers hsigned (n + 1)
    have hproducts := effective_congruence.chain .multiplicative hpowers (n + 1)
    have hsums := effective_congruence.chain .additive hproducts (n + 1)
    refine chain_clears .relational ?_ hsums
    refine chain_clears .additive ?_ hproducts
    refine chain_clears .multiplicative ?_ hpowers
    exact powers_clears hsigned (n + 1)

/-! ## What reading leaves -/

/-- What may be left of atoms that an expression has been taken off: a part at their end that is
shorter and does not begin with a word that writes an operator. -/
structure Shrinks (atoms rest : List Atom) : Prop where
  suffix : rest <:+ atoms
  ne : rest ≠ atoms
  ends : ∀ w ts, rest = .word w :: ts → isInfix w = false

theorem Shrinks.length_lt (h : Shrinks atoms rest) : rest.length < atoms.length :=
  Nat.lt_of_le_of_ne h.suffix.length_le fun heq => h.ne (h.suffix.eq_of_length heq)

/-- Reading has taken an expression off the atoms, or has failed and put nothing before what it
left of them. -/
def Result.Progresses (atoms : List Atom) : Result Expr → Prop
  | .ok _ s => Shrinks atoms s.atoms
  | .fail _ s => s.atoms <:+ atoms

theorem parseExpr_progresses (ctx : Context) (s : State) :
    (parseExpr ctx s).Progresses s.atoms := by
  have heffect : (parseExpr ctx s).Ends (Effect s.atoms s) := expression_effect _ ctx s
  cases hread : parseExpr ctx s with
  | fail f s' =>
    rw [hread] at heffect
    exact heffect.atoms
  | ok e s' =>
    rw [hread] at heffect
    have hlt : s'.atoms.length < s.atoms.length := expression_takes _ hread
    have hclear : Follows 0 s'.atoms := expression_clears _ (Nat.le_refl _) hread
    have hnone : leading s'.atoms = none :=
      Option.eq_none_iff_forall_not_mem.mpr fun op hop => Nat.not_lt_zero _ (hclear op hop)
    refine ⟨heffect.atoms, fun heq => ?_, leading_eq_none_iff.mp hnone⟩
    rw [heq] at hlt
    exact Nat.lt_irrefl _ hlt

/-- There are no more rests than atoms. -/
theorem length_le_of_shrinks {left : List (List Atom)} (h : (atoms :: left).IsChain Shrinks) :
    left.length ≤ atoms.length := by
  induction left generalizing atoms with
  | nil => exact Nat.zero_le _
  | cons rest left ih =>
    rw [List.isChain_cons_cons] at h
    exact Nat.lt_of_le_of_lt (ih h.2) h.1.length_lt

end Parse

/-! ## Lists of instructions -/

/-- Running a list of instructions with no bound on their number, where `last` is the value of the
one before. `left` lists what each instruction that is carried out leaves of the atoms, and `o` is
how the run ends: at the end of the list, with a value that nothing takes, or when an instruction
does not get through. -/
inductive Executes (eng : Engine) (keep : Bool) :
    (last : Option Atom) → (atoms : List Atom) → World → (left : List (List Atom)) →
      (o : Outcome (Option Atom)) → Prop where
  | nil {last : Option Atom} {w : World} : Executes eng keep last [] w [] (.done last w)
  | next {last v : Option Atom} {atoms rest : List Atom} {w w' : World} {left : List (List Atom)}
      {o : Outcome (Option Atom)} : atoms ≠ [] → eng.evaluate atoms w = .done (v, rest) w' →
      (v.isSome = true → keep = true) → Executes eng keep v rest w' left o →
      Executes eng keep last atoms w (rest :: left) o
  | unused {last : Option Atom} {a : Atom} {atoms rest : List Atom} {w w' : World} :
      atoms ≠ [] → eng.evaluate atoms w = .done (some a, rest) w' → keep = false →
      Executes eng keep last atoms w [rest] (Run.fail (.unusedValue a) w')
  | exit {last : Option Atom} {e : Exit} {atoms : List Atom} {w w' : World} :
      atoms ≠ [] → eng.evaluate atoms w = .exit e w' →
      Executes eng keep last atoms w [] (.exit e w')
  | exhausted {last : Option Atom} {atoms : List Atom} {w : World} :
      atoms ≠ [] → eng.evaluate atoms w = .exhausted →
      Executes eng keep last atoms w [] .exhausted

variable {fuel : Nat} {keep : Bool}

/-- An instruction takes an expression off the atoms. -/
theorem Engine.evaluate_shrinks {atoms rest : List Atom} {v : Option Atom} {w w' : World}
    (h : (engineOn fuel).evaluate atoms w = .done (v, rest) w') : Parse.Shrinks atoms rest := by
  obtain ⟨e, w₁, hparse, -⟩ := Engine.evaluate_eq_done.mp h
  have hprogress := Parse.parseExpr_progresses w.parseContext ⟨atoms, w.procedures⟩
  unfold Engine.parse at hparse
  split at hparse
  · next e' s hread =>
    simp only [Outcome.done.injEq, Prod.mk.injEq] at hparse
    obtain ⟨⟨rfl, rfl⟩, rfl⟩ := hparse
    rw [hread] at hprogress
    exact hprogress
  · simp at hparse

/-- A bound on the number of instructions is never met if it is not below that of the atoms. -/
theorem instructions_executes :
    ∀ (n : Nat) (last : Option Atom) (atoms : List Atom) (w : World), atoms.length ≤ n →
      ∃ left, Executes (engineOn fuel) keep last atoms w left
          (instructions (engineOn fuel) keep n last atoms w) ∧
        (atoms :: left).IsChain Parse.Shrinks := by
  intro n
  induction n with
  | zero =>
    intro last atoms w hn
    obtain rfl := List.eq_nil_of_length_eq_zero (Nat.le_zero.mp hn)
    exact ⟨[], .nil, .singleton _⟩
  | succ n ih =>
    intro last atoms w hn
    by_cases hne : atoms = []
    · subst hne
      exact ⟨[], .nil, .singleton _⟩
    rw [instructions_step n last hne]
    cases heval : (engineOn fuel).evaluate atoms w with
    | exit e w₁ =>
      rw [Run.bind_exit heval]
      exact ⟨[], .exit hne heval, .singleton _⟩
    | exhausted =>
      rw [Run.bind_exhausted heval]
      exact ⟨[], .exhausted hne heval, .singleton _⟩
    | done x w₁ =>
      obtain ⟨v, rest⟩ := x
      have hshrinks := Engine.evaluate_shrinks heval
      have hlt := hshrinks.length_lt
      rw [Run.bind_done heval]
      -- What is left is run in the same way, unless the instruction has left a value.
      have hmore : ∀ hkeep : (v.isSome = true → keep = true), ∃ left,
          Executes (engineOn fuel) keep last atoms w left
            (instructions (engineOn fuel) keep n v rest w₁) ∧
          (atoms :: left).IsChain Parse.Shrinks := by
        intro hkeep
        obtain ⟨left, hrun, hchain⟩ := ih v rest w₁ (by omega)
        exact ⟨rest :: left, .next hne heval hkeep hrun, .cons_cons hshrinks hchain⟩
      cases v with
      | none => exact hmore nofun
      | some a =>
        cases keep with
        | true => exact hmore fun _ => rfl
        | false => exact ⟨[rest], .unused hne heval rfl, .cons_cons hshrinks (.singleton _)⟩

/-- Reading makes progress and stops, whatever procedures there are and however many inputs they ask
for. An expression that is read leaves a proper part at the end of the atoms, which does not begin
with an operator, and where reading fails it leaves a part at their end. The readers that call one
another with no bound, and may find no room for inputs of `size` bytes, come to an end on fuel for
sixteen calls for each atom and a few more, and end as reading does. Each instruction of a list that
is executed takes an expression, so that there are no more of them than atoms. -/
theorem reading_stops (size : Nat) (ctx : Parse.Context) (s : Parse.State) :
    (parseExpr ctx s).Progresses s.atoms ∧
    (∃ x, (∀ fuel > 16 * s.atoms.length + 9,
        Parse.Metered.expression size fuel ctx ⟨s, 0⟩ = some x) ∧
      Parse.Metered.EndsAs size ⟨s, 0⟩ (-1) 9 (parseExpr ctx s) x) ∧
    ∀ (fuel : Nat) (code : List Atom) (keep : Bool) (w : World), ∃ left,
      Executes (engineOn fuel) keep none code w left (execute (engineOn fuel) code keep w) ∧
      (code :: left).IsChain Parse.Shrinks ∧ left.length ≤ code.length := by
  refine ⟨Parse.parseExpr_progresses ctx s, Parse.Metered.expression_halts size ctx s, ?_⟩
  intro fuel code keep w
  obtain ⟨left, hrun, hchain⟩ := instructions_executes code.length none code w (Nat.le_refl _)
  exact ⟨left, hrun, hchain, Parse.length_le_of_shrinks hchain⟩

/-- A call of a procedure that asks for `10 ^ 18` inputs, of which one is there. It is read in
forty-one calls at most: with eight bytes for an input it fails, as there are no more atoms, and
with sixteen there is no room. -/
theorem reading_stops_of_many_inputs :
    (∃ f t, ∀ fuel > 41, Parse.Metered.expression 8 fuel ⟨#[], 8, false⟩
      ⟨⟨[.word "f", .word "1"],
        ⟨[("f", ⟨"F", .deferred .conjunction, .fixed (Nat.pow 10 18)⟩)]⟩⟩, 0⟩
        = some (.error (.fault f), t)) ∧
    ∃ t, ∀ fuel > 41, Parse.Metered.expression 16 fuel ⟨#[], 8, false⟩
      ⟨⟨[.word "f", .word "1"],
        ⟨[("f", ⟨"F", .deferred .conjunction, .fixed (Nat.pow 10 18)⟩)]⟩⟩, 0⟩
        = some (.error .overflow, t) := by
  have hstops := fun size => (reading_stops size ⟨#[], 8, false⟩ ⟨[.word "f", .word "1"],
    ⟨[("f", ⟨"F", .deferred .conjunction, .fixed (Nat.pow 10 18)⟩)]⟩⟩).2.1
  constructor
  · obtain ⟨⟨x, t⟩, hx, -⟩ := hstops 8
    have hend := congrArg (Option.map fun y => Parse.Halt.lacksRoom? y.1) (hx 42 (by decide))
    have hfault : some (Parse.Halt.lacksRoom? x) = some (some false) :=
      hend.symm.trans (by decide +kernel)
    cases x with
    | ok e => cases hfault
    | error h =>
      cases h with
      | fault f => exact ⟨f, t, hx⟩
      | overflow => cases hfault
  · obtain ⟨⟨x, t⟩, hx, -⟩ := hstops 16
    have hend := congrArg (Option.map fun y => Parse.Halt.lacksRoom? y.1) (hx 42 (by decide))
    have hoverflow : some (Parse.Halt.lacksRoom? x) = some (some true) :=
      hend.symm.trans (by decide +kernel)
    cases x with
    | ok e => cases hoverflow
    | error h =>
      cases h with
      | fault f => cases hoverflow
      | overflow => exact ⟨t, hx⟩

end TurtleLogo
