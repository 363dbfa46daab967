import TurtleLogo.Proofs.Parse.Append
import TurtleLogo.Proofs.Run.Fuel

set_option autoImplicit false

/-! # Instructions one after the other

Nothing marks where an instruction ends, but a list of instructions that runs to its end can be
followed by more: running the two lists as one is the same as running one after the other, unless
the second begins with an operator. -/

namespace TurtleLogo

variable {eng : Engine} {fuel : Nat} {keep : Bool} {w w' : World} {v : Option Atom}
variable {atoms rest more : List Atom}

/-! ## One instruction -/

theorem Engine.parse_append {e : Expr} (hmore : Parse.leading more = none)
    (h : Engine.parse atoms w = .done (e, rest) w') :
    Engine.parse (atoms ++ more) w = .done (e, rest ++ more) w' := by
  unfold Engine.parse at h ⊢
  split at h
  · next e' s hread =>
    simp only [Outcome.done.injEq, Prod.mk.injEq] at h
    obtain ⟨⟨rfl, rfl⟩, rfl⟩ := h
    rw [Parse.parseExpr_append hmore hread]
  · simp at h

theorem Engine.parse_length {e : Expr} (h : Engine.parse atoms w = .done (e, rest) w') :
    rest.length < atoms.length := by
  unfold Engine.parse at h
  split at h
  · next e' s hread =>
    simp only [Outcome.done.injEq, Prod.mk.injEq] at h
    obtain ⟨⟨rfl, rfl⟩, rfl⟩ := h
    exact Parse.expression_takes _ hread
  · simp at h

theorem Engine.evaluate_eq_done :
    (engineOn fuel).evaluate atoms w = .done (v, rest) w' ↔
      ∃ e w₁, Engine.parse atoms w = .done (e, rest) w₁ ∧
        (engineOn fuel).force e w₁ = .done v w' := by
  unfold Engine.evaluate
  constructor
  · intro h
    obtain ⟨⟨e, ts⟩, w₁, hparse, hrest⟩ := Run.bind_eq_done.mp h
    obtain ⟨v', w₂, hforce, hdone⟩ := Run.bind_eq_done.mp hrest
    simp only [pure, Run.pure, Outcome.done.injEq, Prod.mk.injEq] at hdone
    obtain ⟨⟨rfl, rfl⟩, rfl⟩ := hdone
    exact ⟨e, w₁, hparse, hforce⟩
  · rintro ⟨e, w₁, hparse, hforce⟩
    exact (Run.bind_done hparse _).trans (Run.bind_done hforce _)

/-- An instruction is evaluated the same with more atoms behind it. -/
theorem Engine.evaluate_append (hmore : Parse.leading more = none)
    (h : (engineOn fuel).evaluate atoms w = .done (v, rest) w') :
    (engineOn fuel).evaluate (atoms ++ more) w = .done (v, rest ++ more) w' := by
  obtain ⟨e, w₁, hparse, hforce⟩ := Engine.evaluate_eq_done.mp h
  exact Engine.evaluate_eq_done.mpr ⟨e, w₁, Engine.parse_append hmore hparse, hforce⟩

/-- An instruction takes an atom at least. -/
theorem Engine.evaluate_length (h : (engineOn fuel).evaluate atoms w = .done (v, rest) w') :
    rest.length < atoms.length := by
  obtain ⟨e, w₁, hparse, -⟩ := Engine.evaluate_eq_done.mp h
  exact Engine.parse_length hparse

/-! ## Lists of instructions -/

/-- What follows an instruction: the next ones, unless it left a value that nothing takes. -/
def proceed (eng : Engine) (keep : Bool) (n : Nat) : Option Atom × List Atom → Run (Option Atom)
  | (none, rest) => instructions eng keep n none rest
  | (some a, rest) =>
    if keep then instructions eng keep n (some a) rest else Run.fail (.unusedValue a)

theorem instructions_nil (n : Nat) (last : Option Atom) :
    instructions eng keep n last [] = pure last := by
  cases n with
  | zero => rfl
  | succ n => rfl

theorem instructions_step (n : Nat) (last : Option Atom) (hne : atoms ≠ []) :
    instructions eng keep (n + 1) last atoms = eng.evaluate atoms >>= proceed eng keep n := by
  cases atoms with
  | nil => exact absurd rfl hne
  | cons a ts =>
    unfold instructions
    congr 1
    funext ⟨v, rest⟩
    cases v with
    | none => rfl
    | some a => rfl

/-- A list is run to its end under any bound that is not below its length. -/
theorem instructions_bound :
    ∀ (n n' : Nat) (last : Option Atom) (atoms : List Atom) (w : World),
      atoms.length ≤ n → atoms.length ≤ n' →
      instructions (engineOn fuel) keep n last atoms w
        = instructions (engineOn fuel) keep n' last atoms w := by
  intro n
  induction n with
  | zero =>
    intro n' last atoms w hn _
    obtain rfl := List.eq_nil_of_length_eq_zero (Nat.le_zero.mp hn)
    rw [instructions_nil, instructions_nil]
  | succ n ih =>
    intro n' last atoms w hn hn'
    cases atoms with
    | nil => rw [instructions_nil, instructions_nil]
    | cons a ts =>
      obtain ⟨n', rfl⟩ : ∃ i, n' = i + 1 := ⟨n' - 1, by simp at hn'; omega⟩
      rw [instructions_step n last (by simp), instructions_step n' last (by simp)]
      cases heval : (engineOn fuel).evaluate (a :: ts) w with
      | exit e w₁ => rw [Run.bind_exit heval, Run.bind_exit heval]
      | exhausted => rw [Run.bind_exhausted heval, Run.bind_exhausted heval]
      | done x w₁ =>
        obtain ⟨v, rest⟩ := x
        have hlt := Engine.evaluate_length heval
        rw [Run.bind_done heval, Run.bind_done heval]
        cases v with
        | none => exact ih n' none rest w₁ (by omega) (by omega)
        | some a =>
          simp only [proceed]
          split
          · exact ih n' (some a) rest w₁ (by omega) (by omega)
          · rfl

/-- The value of an instruction before the first has no bearing on a list that is not empty. -/
theorem instructions_last (n : Nat) (last last' : Option Atom) (hne : atoms ≠ [])
    (hn : atoms.length ≤ n) :
    instructions eng keep n last atoms = instructions eng keep n last' atoms := by
  have hpos : 0 < atoms.length := List.length_pos_iff.mpr hne
  obtain ⟨n, rfl⟩ : ∃ i, n = i + 1 := ⟨n - 1, by omega⟩
  rw [instructions_step n last hne, instructions_step n last' hne]

/-- A list that is run to its end may be followed by another. -/
theorem instructions_append (hmore : Parse.leading more = none) :
    ∀ (n k : Nat) (last : Option Atom) (atoms : List Atom) (w : World), atoms.length ≤ n →
      (atoms ++ more).length ≤ k → instructions (engineOn fuel) keep n last atoms w = .done v w' →
      instructions (engineOn fuel) keep k last (atoms ++ more) w
        = instructions (engineOn fuel) keep k v more w' := by
  intro n
  induction n with
  | zero =>
    intro k last atoms w hn _ h
    obtain rfl := List.eq_nil_of_length_eq_zero (Nat.le_zero.mp hn)
    obtain ⟨rfl, rfl⟩ := Outcome.done.inj h
    rfl
  | succ n ih =>
    intro k last atoms w hn hk h
    cases atoms with
    | nil =>
      obtain ⟨rfl, rfl⟩ := Outcome.done.inj h
      rfl
    | cons a ts =>
      obtain ⟨k, rfl⟩ : ∃ i, k = i + 1 := ⟨k - 1, by simp at hk; omega⟩
      rw [instructions_step n last (by simp)] at h
      obtain ⟨⟨u, rest⟩, w₁, heval, hrest⟩ := Run.bind_eq_done.mp h
      have hlt := Engine.evaluate_length heval
      have hk' : (rest ++ more).length ≤ k := by
        rw [List.length_append] at hk ⊢
        omega
      have hbound : more.length ≤ k := by
        rw [List.length_append] at hk'
        omega
      -- The whole list has spent one of its bound here, and the second list alone has not.
      rw [instructions_step k last (by simp), Run.bind_done (Engine.evaluate_append hmore heval),
        instructions_bound (k + 1) k v more w' (by omega) hbound]
      cases u with
      | none => exact ih k none rest w₁ (by omega) hk' hrest
      | some a =>
        simp only [proceed] at hrest ⊢
        split at hrest
        · next hkeep =>
          rw [if_pos hkeep]
          exact ih k (some a) rest w₁ (by omega) hk' hrest
        · -- A value that nothing takes is a fault, and the first list had none.
          simp [Run.fail, Run.exit] at hrest

/-- On the same fuel, two lists run as one are run one after the other. -/
theorem interpret_append {first second : List Atom} (hne : second ≠ [])
    (hop : Parse.leading second = none)
    (h : interpret fuel (.execute first keep) w = .done v w') :
    interpret fuel (.execute (first ++ second) keep) w
      = interpret fuel (.execute second keep) w' := by
  cases fuel with
  | zero => simp [interpret] at h
  | succ fuel =>
    rw [interpret_succ] at h ⊢
    rw [interpret_succ]
    have happend := instructions_append hop first.length (first ++ second).length none first w
      (Nat.le_refl _) (Nat.le_refl _) h
    have hlength : second.length ≤ (first ++ second).length := by simp
    calc instructions (engineOn fuel) keep (first ++ second).length none (first ++ second) w
        = instructions (engineOn fuel) keep (first ++ second).length v second w' := happend
      _ = instructions (engineOn fuel) keep (first ++ second).length none second w' := by
        rw [instructions_last _ v none hne hlength]
      _ = instructions (engineOn fuel) keep second.length none second w' :=
        instructions_bound _ _ none second w' hlength (Nat.le_refl _)

/-- Running a list of instructions with another behind it is running one after the other: if the
first runs to its end, the whole finishes exactly as the second does from the state that the first
leaves. The second may not be empty, or the value of the first would be that of the whole, and may
not begin with an operator, which would go on with the last expression of the first. -/
theorem execute_append {first second : List Atom} (hne : second ≠ [])
    (hop : Parse.leading second = none) (h : Finishes (.execute first keep) w (.done v w'))
    (o : Outcome (Option Atom)) :
    Finishes (.execute (first ++ second) keep) w o ↔ Finishes (.execute second keep) w' o := by
  obtain ⟨fuel, hfirst⟩ := h.eventually
  have hsame : ∀ fuel' ≥ fuel, interpret fuel' (.execute (first ++ second) keep) w
      = interpret fuel' (.execute second keep) w' :=
    fun fuel' hle => interpret_append hne hop (hfirst fuel' hle)
  constructor
  · intro hwhole
    obtain ⟨fuel', hfuel'⟩ := hwhole.eventually
    refine ⟨hwhole.1, max fuel fuel', ?_⟩
    rw [← hsame _ (Nat.le_max_left _ _)]
    exact hfuel' _ (Nat.le_max_right _ _)
  · intro hsecond
    obtain ⟨fuel', hfuel'⟩ := hsecond.eventually
    refine ⟨hsecond.1, max fuel fuel', ?_⟩
    rw [hsame _ (Nat.le_max_left _ _)]
    exact hfuel' _ (Nat.le_max_right _ _)

/-- The second list calls what the first one defines. -/
theorem execute_append_of_definition : ∃ w',
    Finishes (.execute [.word "to", .word "f", .word "end"] false)
      { procedures := ⟨[("to", ⟨"TO", .definer, .fixed 0⟩)]⟩ } (.done none w') ∧
    Finishes (.execute ([.word "to", .word "f", .word "end"] ++ [.word "F"]) false)
      { procedures := ⟨[("to", ⟨"TO", .definer, .fixed 0⟩)]⟩ } (.done none w') := by
  have h : Finishes (.execute [.word "to", .word "f", .word "end"] false)
      { procedures := ⟨[("to", ⟨"TO", .definer, .fixed 0⟩)]⟩ } (.done none _) := ⟨nofun, 2, rfl⟩
  have hop : Parse.leading [.word "F"] = none := rfl
  exact ⟨_, h, (execute_append (List.cons_ne_nil _ _) hop h _).mpr ⟨nofun, 4, rfl⟩⟩

end TurtleLogo
