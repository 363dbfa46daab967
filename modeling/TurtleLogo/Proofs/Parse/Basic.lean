import TurtleLogo.Expr

set_option autoImplicit false

/-! # Readers applied to a state

How the steps of reading act on a context and a state, one equation for each way they can go. -/

namespace TurtleLogo.Parse

variable {α β : Type} {ctx : Context} {s s' : State}

theorem bind_apply (m : Parse α) (f : α → Parse β) (ctx : Context) (s : State) :
    (m >>= f) ctx s
      = match m ctx s with
        | .ok a s => f a ctx s
        | .fail e s => .fail e s := rfl

theorem bind_ok {m : Parse α} {a : α} (h : m ctx s = .ok a s') (f : α → Parse β) :
    (m >>= f) ctx s = f a ctx s' := by
  rw [bind_apply, h]

theorem bind_fail {m : Parse α} {e : Fault} (h : m ctx s = .fail e s') (f : α → Parse β) :
    (m >>= f) ctx s = .fail e s' := by
  rw [bind_apply, h]

/-- A sequence that succeeds is one whose parts succeed one after the other. -/
theorem bind_eq_ok {m : Parse α} {f : α → Parse β} {b : β} :
    (m >>= f) ctx s = .ok b s' ↔ ∃ a s₁, m ctx s = .ok a s₁ ∧ f a ctx s₁ = .ok b s' := by
  rw [bind_apply]
  cases m ctx s with
  | ok a s₁ =>
    constructor
    · intro h
      exact ⟨a, s₁, rfl, h⟩
    · rintro ⟨_, _, heq, h⟩
      obtain ⟨rfl, rfl⟩ := Result.ok.inj heq
      exact h
  | fail e s₁ => simp

/-! ## How reading ends -/

/-- `P` holds of the state in which reading ends, with or without success. -/
def Result.Ends (P : State → Prop) : Result α → Prop
  | .ok _ s => P s
  | .fail _ s => P s

theorem Result.Ends.imp {P Q : State → Prop} {x : Result α} (h : x.Ends P) (hPQ : ∀ s, P s → Q s) :
    x.Ends Q := by
  cases x with
  | ok a s => exact hPQ s h
  | fail e s => exact hPQ s h

theorem Result.Ends.bind {P Q : State → Prop} {m : Parse α} {f : α → Parse β}
    (hm : (m ctx s).Ends P) (hPQ : ∀ s, P s → Q s) (hf : ∀ a s, P s → (f a ctx s).Ends Q) :
    ((m >>= f) ctx s).Ends Q := by
  cases hr : m ctx s with
  | ok a s₁ =>
    rw [hr] at hm
    rw [bind_ok hr]
    exact hf a s₁ hm
  | fail e s₁ =>
    rw [hr] at hm
    rw [bind_fail hr]
    exact hPQ s₁ hm

/-! ## Operators -/

variable {level : Level} {op : Operator} {a : Atom} {ts : List Atom}

/-- The operator that the atoms begin with, if they begin with one. -/
def leading (atoms : List Atom) : Option Operator :=
  atoms.head?.bind operator?

theorem leading_append_of_ne_nil (h : ts ≠ []) (more : List Atom) :
    leading (ts ++ more) = leading ts := by
  cases ts with
  | nil => exact absurd rfl h
  | cons a ts => rfl

theorem leading_append_of_none {more : List Atom} (h : leading more = none) (ts : List Atom) :
    leading (ts ++ more) = leading ts := by
  cases ts with
  | nil => exact h
  | cons a ts => rfl

theorem takeOperator_cons (hatoms : s.atoms = a :: ts) (hop : operator? a = some op)
    (hlevel : op.level = level) :
    takeOperator level ctx s = .ok (some op) { s with atoms := ts } := by
  simp [takeOperator, hatoms, hop, hlevel]

theorem takeOperator_skip (h : ∀ op, leading s.atoms = some op → op.level ≠ level) :
    takeOperator level ctx s = .ok none s := by
  unfold takeOperator
  split
  · next op hop => rw [if_neg (h op hop)]
  · rfl

/-- Either the next atom is an operator of the level and is taken, or nothing is. -/
theorem takeOperator_cases (level : Level) (ctx : Context) (s : State) :
    (∃ a ts op, s.atoms = a :: ts ∧ operator? a = some op ∧ op.level = level ∧
      takeOperator level ctx s = .ok (some op) { s with atoms := ts }) ∨
    ((∀ op, leading s.atoms = some op → op.level ≠ level) ∧
      takeOperator level ctx s = .ok none s) := by
  by_cases h : ∃ op, leading s.atoms = some op ∧ op.level = level
  · obtain ⟨op, hop, hlevel⟩ := h
    cases hatoms : s.atoms with
    | nil => simp [leading, hatoms] at hop
    | cons a ts =>
      rw [hatoms] at hop
      exact Or.inl ⟨a, ts, op, rfl, hop, hlevel, takeOperator_cons hatoms hop hlevel⟩
  · have hne : ∀ op, leading s.atoms = some op → op.level ≠ level :=
      fun op hop hlevel => h ⟨op, hop, hlevel⟩
    exact Or.inr ⟨hne, takeOperator_skip hne⟩

theorem signed_minus (m : Parse Expr) (n : Nat) (h : s.atoms = .word "-" :: ts) :
    signed m (n + 1) ctx s
      = (signed m n >>= fun e => Pure.pure (.negate e)) ctx { s with atoms := ts } := by
  have hminus : nextIs "-" ctx s = .ok true s := by
    simp [nextIs, h, Atom.isWord]
  have hnext : next ctx s = .ok (some (.word "-")) { s with atoms := ts } := by
    simp [next, h]
  rw [signed, bind_ok hminus]
  exact bind_ok hnext _

theorem signed_plain (m : Parse Expr) (n : Nat) (h : ∀ ts, s.atoms ≠ .word "-" :: ts) :
    signed m n ctx s = m ctx s := by
  cases n with
  | zero => rfl
  | succ n =>
    have hminus : nextIs "-" ctx s = .ok false s := by
      cases hatoms : s.atoms with
      | nil => simp [nextIs, hatoms]
      | cons a ts =>
        cases a with
        | word w =>
          have hw : w ≠ "-" := by
            rintro rfl
            exact h ts hatoms
          simp [nextIs, hatoms, Atom.isWord, hw]
        | number x => simp [nextIs, hatoms, Atom.isWord]
        | list items => simp [nextIs, hatoms, Atom.isWord]
    rw [signed, bind_ok hminus]
    rfl

/-! ## Calls -/

variable {name : String} {inputs : Procedure → Parse Expr} {p : Procedure}

theorem callOf_none (h : s.registry.get? name = none) :
    callOf name inputs ctx s = .fail { cause := .unknownProcedure name } s := by
  simp only [callOf, bind_apply, procedure?, h]
  rfl

theorem callOf_definer (h : s.registry.get? name = some p) (hbody : p.body = .definer) :
    callOf name inputs ctx s = define p ctx s := by
  simp only [callOf, bind_apply, procedure?, h, hbody]

theorem callOf_inputs (h : s.registry.get? name = some p) (hbody : p.body ≠ .definer) :
    callOf name inputs ctx s = inputs p ctx s := by
  simp only [callOf, bind_apply, procedure?, h]

theorem define_aborted (habort : ctx.aborted = true) :
    define p ctx s = .fail { cause := .aborted } s := by
  simp [define, habort]

theorem define_tooDeep (habort : ctx.aborted = false) (hdeep : ctx.limit ≤ ctx.calls.size) :
    define p ctx s = .fail { cause := .tooDeep ctx.limit, stack := ctx.calls.toList } s := by
  simp [define, habort, hdeep]

theorem define_ok {given : String} {d : Definition} {rest : List Atom} {r : Registry}
    (habort : ctx.aborted = false) (hdepth : ctx.calls.size < ctx.limit)
    (hparse : Definition.parse s.atoms = (.ok (given, d), rest))
    (hinstall : s.registry.install given d = .ok r) :
    define p ctx s = .ok .nothing ⟨rest, r⟩ := by
  simp [define, habort, Nat.not_le.mpr hdepth, hparse, hinstall]

/-- A definition succeeds only if the program may go on, what follows reads as a definition, and the
registry takes it. -/
theorem define_inv {e : Expr} (h : define p ctx s = .ok e s') :
    ctx.aborted = false ∧ ctx.calls.size < ctx.limit ∧
      ∃ given d rest r, Definition.parse s.atoms = (.ok (given, d), rest) ∧
        s.registry.install given d = .ok r ∧ e = .nothing ∧ s' = ⟨rest, r⟩ := by
  unfold define at h
  split at h
  · simp at h
  · next habort =>
    split at h
    · simp at h
    · next hdepth =>
      dsimp only at h
      split at h
      · simp at h
      · next given d rest hparse =>
        split at h
        · simp at h
        · next r hinstall =>
          obtain ⟨rfl, rfl⟩ := Result.ok.inj h
          exact ⟨by simpa using habort, Nat.not_le.mp hdepth, given, d, rest, r, hparse, hinstall,
            rfl, rfl⟩

/-- A definition fails because the program is to stop, because too many procedures are running, or
because what follows is no definition or one that the registry does not take. -/
theorem define_fail_inv {f : Fault} (h : define p ctx s = .fail f s') :
    (ctx.aborted = true ∧ f = { cause := .aborted } ∧ s' = s) ∨
    (ctx.aborted = false ∧ ctx.limit ≤ ctx.calls.size ∧
      f = { cause := .tooDeep ctx.limit, stack := ctx.calls.toList } ∧ s' = s) ∨
    (ctx.aborted = false ∧ ctx.calls.size < ctx.limit ∧
      ∃ cause rest, f = { cause, stack := (ctx.calls.push p.name).toList } ∧
        s' = { s with atoms := rest } ∧
        (Definition.parse s.atoms = (.error cause, rest) ∨
          ∃ given d, Definition.parse s.atoms = (.ok (given, d), rest) ∧
            s.registry.install given d = .error cause)) := by
  unfold define at h
  split at h
  · next habort =>
    obtain ⟨rfl, rfl⟩ := Result.fail.inj h
    exact Or.inl ⟨habort, rfl, rfl⟩
  · next habort =>
    have hgo : ctx.aborted = false := by simpa using habort
    split at h
    · next hdeep =>
      obtain ⟨rfl, rfl⟩ := Result.fail.inj h
      exact Or.inr (Or.inl ⟨hgo, hdeep, rfl, rfl⟩)
    · next hdepth =>
      dsimp only at h
      refine Or.inr (Or.inr ⟨hgo, Nat.not_le.mp hdepth, ?_⟩)
      split at h
      · next cause rest hparse =>
        obtain ⟨rfl, rfl⟩ := Result.fail.inj h
        exact ⟨cause, rest, rfl, rfl, Or.inl hparse⟩
      · next given d rest hparse =>
        split at h
        · next cause hinstall =>
          obtain ⟨rfl, rfl⟩ := Result.fail.inj h
          exact ⟨cause, rest, rfl, rfl, Or.inr ⟨given, d, hparse, hinstall⟩⟩
        · simp at h

/-- An opening parenthesis calls the word behind it if that names a procedure and no operator
follows. -/
theorem enclosedName?_eq_some :
    enclosedName? s = some name ↔
      ∃ rest, s.atoms = .word name :: rest ∧ s.registry.contains name = true ∧
        leading rest = none := by
  unfold enclosedName? leading
  split
  · next w rest hatoms =>
    simp only [Option.ite_none_right_eq_some, Bool.and_eq_true, Option.isNone_iff_eq_none,
      Option.some.injEq, hatoms, List.cons.injEq, Atom.word.injEq]
    constructor
    · rintro ⟨⟨hname, hop⟩, rfl⟩
      exact ⟨rest, ⟨rfl, rfl⟩, hname, hop⟩
    · rintro ⟨_, ⟨rfl, rfl⟩, hname, hop⟩
      exact ⟨⟨hname, hop⟩, rfl⟩
  · next hatoms =>
    constructor
    · intro h
      simp at h
    · rintro ⟨rest, h, -⟩
      exact absurd h (hatoms name rest)

end TurtleLogo.Parse
