import TurtleLogo.Proofs.Parse.Room

set_option autoImplicit false

/-! # Reading on a meter

The readers of `TurtleLogo.Expr` take a bound on the atoms that are left, and it does not show
whether they would come to an end without one. Here are the same readers with no such bound: they
call one another for as long as they have to, and a loop calls itself for its next round. They run
on fuel, which bounds how deeply the calls are nested, and have no result if it is used up. On a
meter they count their calls. They also set room aside for the inputs of a call, and may overflow.

They always come to an end (`Metered.expression_stops`), and unless they overflow they read what the
readers under a bound read. The atoms that are taken pay for the calls: sixteen for each atom,
whatever procedures there are and however many inputs those ask for. -/

namespace TurtleLogo

/-- A call without parentheses of a procedure that takes inputs sets room aside for all of them. -/
theorem Registry.reserves_of_inputs {r : Registry} {name : String} {p : Procedure}
    (h : r.get? name = some p) (hbody : p.body ≠ .definer) : r.reserves name = p.arity.natural := by
  rw [reserves, h]
  dsimp only
  split
  · next hdefiner => exact absurd hdefiner hbody
  · rfl

namespace Parse

/-! ## The readers -/

/-- What ends reading early: a fault, or a want of room for inputs. -/
inductive Halt where
  | fault (f : Fault)
  | overflow

/-- Whether reading that ended early did so for want of room. -/
def Halt.lacksRoom? {α : Type} : Except Halt α → Option Bool
  | .ok _ => none
  | .error (.fault _) => some false
  | .error .overflow => some true

/-- The state of a reader that counts its calls. -/
structure Tally extends State where
  calls : Nat

/-- A reader that counts its calls; it has no result if its fuel is used up. -/
abbrev Metered : Type → Type :=
  ReaderT Context (ExceptT Halt (StateT Tally Option))

namespace Metered

variable {α β : Type}

/-- The fuel is used up. -/
def exhausted : Metered α :=
  fun _ _ => none

/-- Counts a call. -/
def tick : Metered Unit :=
  fun _ t => some (.ok (), { t with calls := t.calls + 1 })

/-- Does what a single step does. -/
def of (m : Parse α) : Metered α :=
  fun ctx t =>
    match m ctx t.toState with
    | .ok a s => some (.ok a, ⟨s, t.calls⟩)
    | .fail f s => some (.error (.fault f), ⟨s, t.calls⟩)

/-- Sets room aside for inputs of `size` bytes each. -/
def reserve (size count : Nat) : Metered Unit :=
  fun _ t =>
    match reserving size count t with
    | some t => some (.ok (), t)
    | none => some (.error .overflow, t)

/-- The name that an opening parenthesis calls, which stays. -/
def called : Parse (Option String) :=
  fun _ s => .ok (enclosedName? s) s

/-- Reads a call whose name has been taken. -/
def callOf (name : String) (inputs : Procedure → Metered Expr) : Metered Expr := do
  match ← of (procedure? name) with
  | none => of (fail (.unknownProcedure name))
  | some p =>
    match p.body with
    | .definer => of (define p)
    | _ => inputs p

mutual

/-- Reads an operand of the operators of a level. -/
def component (size : Nat) (level : Level) : Nat → Metered Expr
  | 0 => exhausted
  | n + 1 => do
    tick
    match level with
    | .relational => chain size .additive n
    | .additive => chain size .multiplicative n
    | .multiplicative => powers size n
    | .power => signed size n

/-- Reads a chain of operators of one level. -/
def chain (size : Nat) (level : Level) : Nat → Metered Expr
  | 0 => exhausted
  | n + 1 => do
    tick
    let left ← component size level n
    chainFrom size level left n

/-- Reads the rest of a chain of operators of one level, which group to the left; `left` has been
read. -/
def chainFrom (size : Nat) (level : Level) (left : Expr) : Nat → Metered Expr
  | 0 => exhausted
  | n + 1 => do
    tick
    match ← of (takeOperator level) with
    | none => return left
    | some op =>
      let right ← component size level n
      chainFrom size level (.binary op left right) n

/-- Reads powers, which group to the right. -/
def powers (size : Nat) : Nat → Metered Expr
  | 0 => exhausted
  | n + 1 => do
    tick
    let left ← signed size n
    match ← of (takeOperator .power) with
    | none => return left
    | some op =>
      let right ← powers size n
      return .binary op left right

/-- Reads an operand with any number of minus signs before it. -/
def signed (size : Nat) : Nat → Metered Expr
  | 0 => exhausted
  | n + 1 => do
    tick
    if ← of (nextIs "-") then
      let _ ← of next
      let e ← signed size n
      return .negate e
    else operand size n

/-- Reads an expression without operators of its own. -/
def operand (size : Nat) : Nat → Metered Expr
  | 0 => exhausted
  | n + 1 => do
    tick
    match ← of next with
    | none => of (fail .endOfInstructions)
    | some (.word w) => wordExpr size w n
    | some a => return .constant a

/-- Reads an expression that begins with a word. -/
def wordExpr (size : Nat) (w : String) : Nat → Metered Expr
  | 0 => exhausted
  | n + 1 => do
    tick
    match numeral? w with
    | some value => return .constant (.number value)
    | none =>
      match w.toList with
      | '"' :: text => return .constant (.word (String.ofList text))
      | ':' :: name => return .thing (String.ofList name)
      | ['('] => enclosed size n
      | [')'] => of (fail .strayClosing)
      | _ => naturalCall size w n

/-- Reads what follows an opening parenthesis: a call with any number of inputs, or an expression
and the closing parenthesis. -/
def enclosed (size : Nat) : Nat → Metered Expr
  | 0 => exhausted
  | n + 1 => do
    tick
    match ← of called with
    | some name =>
      let _ ← of next
      enclosedCall size name n
    | none =>
      let e ← chain size .relational n
      match ← of next with
      | some a => if a.isWord ")" then return e else of (fail .closingExpected)
      | none => of (fail .closingExpected)

/-- Reads a call without parentheses into room that is set aside for all its inputs. -/
def naturalCall (size : Nat) (name : String) : Nat → Metered Expr
  | 0 => exhausted
  | n + 1 => do
    tick
    callOf name fun p => do
      reserve size p.arity.natural
      let inputs ← naturalInputs size p.name p.arity.natural n
      return .call p inputs

/-- Reads a call after an opening parenthesis. -/
def enclosedCall (size : Nat) (name : String) : Nat → Metered Expr
  | 0 => exhausted
  | n + 1 => do
    tick
    callOf name fun p => do
      let inputs ← enclosedInputs size p.name n
      of (checkInputs p inputs)

/-- Reads exactly `count` inputs. -/
def naturalInputs (size : Nat) (name : String) (count : Nat) : Nat → Metered (List Expr)
  | 0 => exhausted
  | n + 1 => do
    tick
    match count with
    | 0 => return []
    | count + 1 =>
      match ← of peek with
      | none => of (fail (.notEnoughInputs name))
      | some a =>
        if a.isWord ")" then of (fail (.notEnoughInputs name))
        else
          let e ← chain size .relational n
          let es ← naturalInputs size name count n
          return e :: es

/-- Reads inputs up to and with a closing parenthesis. -/
def enclosedInputs (size : Nat) (name : String) : Nat → Metered (List Expr)
  | 0 => exhausted
  | n + 1 => do
    tick
    match ← of peek with
    | none => of (fail (.closingExpectedAfter name))
    | some a =>
      if a.isWord ")" then
        let _ ← of next
        return []
      else
        let e ← chain size .relational n
        let es ← enclosedInputs size name n
        return e :: es

end

/-- Reads an expression. -/
def expression (size fuel : Nat) : Metered Expr :=
  chain size .relational fuel

/-! ## How a sequence goes on -/

variable {ctx : Context} {t t' : Tally}

theorem bind_ok {u : Metered α} {a : α} (h : u ctx t = some (.ok a, t')) (g : α → Metered β) :
    (u >>= g) ctx t = g a ctx t' := by
  change (u ctx t).bind _ = _
  rw [h]
  rfl

theorem bind_error {u : Metered α} {halt : Halt} (h : u ctx t = some (.error halt, t'))
    (g : α → Metered β) : (u >>= g) ctx t = some (.error halt, t') := by
  change (u ctx t).bind _ = _
  rw [h]
  rfl

theorem of_ok {m : Parse α} {a : α} {s : State} (h : m ctx t.toState = .ok a s) :
    of m ctx t = some (.ok a, ⟨s, t.calls⟩) := by
  rw [of, h]

theorem of_fail {m : Parse α} {f : Fault} {s : State} (h : m ctx t.toState = .fail f s) :
    of m ctx t = some (.error (.fault f), ⟨s, t.calls⟩) := by
  rw [of, h]

end Metered

/-! ## Paying for calls -/

/-- From `t` to `t'` only atoms are taken, and the calls that are made are paid for: each atom that
is taken pays for sixteen of them, and `extra` are allowed on top. -/
structure Tally.Within (extra : Int) (t t' : Tally) : Prop where
  atoms : t'.atoms <:+ t.atoms
  calls : t.calls ≤ t'.calls
  paid : (t'.calls : Int) + 16 * t'.atoms.length ≤ t.calls + 16 * t.atoms.length + extra

namespace Tally.Within

variable {t t₁ t₂ : Tally} {a b c : Int}

theorem trans (h₁ : Within a t t₁) (h₂ : Within b t₁ t₂) (hle : a + b ≤ c) : Within c t t₂ where
  atoms := h₂.atoms.trans h₁.atoms
  calls := h₁.calls.trans h₂.calls
  paid := by
    have := h₁.paid
    have := h₂.paid
    omega

theorem mono (h : Within a t t₁) (hle : a ≤ b) : Within b t t₁ where
  atoms := h.atoms
  calls := h.calls
  paid := by
    have := h.paid
    omega

/-- A step that makes no call is paid for. -/
theorem of_suffix {s : State} (h : s.atoms <:+ t.atoms) : Within 0 t ⟨s, t.calls⟩ where
  atoms := h
  calls := Nat.le_refl _
  paid := by
    have := h.length_le
    dsimp only
    omega

/-- An atom that is taken pays for sixteen calls to come. -/
theorem of_cons {x : Atom} {ts : List Atom} (h : t.atoms = x :: ts) :
    Within (-16) t ⟨{ t.toState with atoms := ts }, t.calls⟩ where
  atoms := h ▸ List.suffix_cons x ts
  calls := Nat.le_refl _
  paid := by
    rw [h, List.length_cons]
    dsimp only
    omega

theorem length_le (h : Within a t t₁) {n : Nat} (hn : t.atoms.length ≤ n) : t₁.atoms.length ≤ n :=
  h.atoms.length_le.trans hn

/-- Calls that are made on no extra are paid for by an atom at least. -/
theorem length_lt (h : Within a t t₁) (ha : a < 0) : t₁.atoms.length < t.atoms.length := by
  have := h.calls
  have := h.paid
  omega

end Tally.Within

namespace Metered

/-- How a reader on a meter that began at `t` has ended, if the reader under a bound ends as `y`: in
the same way, or for want of room. More calls were made than the atoms that were taken pay for:
`gain` at most if it succeeded, and else `loss`. -/
def EndsAs (size : Nat) (t : Tally) (gain loss : Int) {α : Type} (y : Result α) :
    Except Halt α × Tally → Prop
  | (.ok a, t') => y = .ok a t'.toState ∧ t.Within gain t'
  | (.error (.fault f), t') => y = .fail f t'.toState ∧ t.Within loss t'
  | (.error .overflow, t') =>
    (∃ name, ¬ HasRoom size (Registry.reserves t'.registry name)) ∧ t.Within loss t'

/-- At `t` the reader `u` stops, on any fuel that exceeds the number of calls it makes, and it ends
as `m` does. -/
def StopsAt (size : Nat) (gain loss : Int) {α : Type} (m : Parse α) (u : Nat → Metered α)
    (ctx : Context) (t : Tally) : Prop :=
  ∃ x, (∀ fuel, x.2.calls < t.calls + fuel → u fuel ctx t = some x) ∧
    EndsAs size t gain loss (m ctx t.toState) x

/-- The reader `u` stops wherever no more than `n` atoms are left, and ends there as `m` does. -/
def Stops (size n : Nat) (gain loss : Int) {α : Type} (m : Parse α) (u : Nat → Metered α) : Prop :=
  ∀ ctx t, t.atoms.length ≤ n → StopsAt size gain loss m u ctx t

section
variable {size n k : Nat} {α β : Type} {ctx : Context} {t t' : Tally} {a b c d : Int}
variable {y : Result α} {x : Except Halt α × Tally} {m : Parse α} {u : Nat → Metered α}

theorem EndsAs.within (h : EndsAs size t a b y x) : t.Within (max a b) x.2 := by
  match x with
  | (.ok v, _) => exact h.2.mono (Int.le_max_left a b)
  | (.error (.fault f), _) => exact h.2.mono (Int.le_max_right a b)
  | (.error .overflow, _) => exact h.2.mono (Int.le_max_right a b)

/-- What happened before may be counted in. -/
theorem EndsAs.after (hwithin : t.Within a t') (h : EndsAs size t' b c y x) {p q : Int}
    (hgain : a + b ≤ p) (hloss : a + c ≤ q) : EndsAs size t p q y x := by
  match x with
  | (.ok v, _) => exact ⟨h.1, hwithin.trans h.2 hgain⟩
  | (.error (.fault f), _) => exact ⟨h.1, hwithin.trans h.2 hloss⟩
  | (.error .overflow, _) => exact ⟨h.1, hwithin.trans h.2 hloss⟩

/-- If both readers go on at `t'`, as `m'` and `u'` do there, they stop if those do. -/
theorem StopsAt.step {m' : Parse α} {u' : Nat → Metered α}
    (hu : ∀ fuel, u fuel ctx t = u' fuel ctx t') (hm : m ctx t.toState = m' ctx t'.toState)
    (hwithin : t.Within a t') (h : StopsAt size b c m' u' ctx t') {p q : Int} (hgain : a + b ≤ p)
    (hloss : a + c ≤ q) : StopsAt size p q m u ctx t := by
  obtain ⟨x, hx, hends⟩ := h
  have hcalls := hwithin.calls
  refine ⟨x, fun fuel hfuel => (hu fuel).trans (hx fuel (by omega)), ?_⟩
  rw [hm]
  exact hends.after hwithin hgain hloss

theorem StopsAt.mono (h : StopsAt size a b m u ctx t) (hgain : a ≤ c) (hloss : b ≤ d) :
    StopsAt size c d m u ctx t :=
  .step (fun _ => rfl) rfl (Tally.Within.of_suffix (List.suffix_refl _)) h (by omega) (by omega)

/-- A single step, which makes no calls. -/
theorem StopsAt.of (h : (m ctx t.toState).Ends fun s => s.atoms <:+ t.atoms) (hgain : 0 ≤ a)
    (hloss : 0 ≤ b) : StopsAt size a b m (fun _ => of m) ctx t := by
  cases hm : m ctx t.toState with
  | ok v s =>
    rw [hm] at h
    exact ⟨_, fun _ _ => of_ok hm, hm, (Tally.Within.of_suffix h).mono hgain⟩
  | fail f s =>
    rw [hm] at h
    exact ⟨_, fun _ _ => of_fail hm, hm, (Tally.Within.of_suffix h).mono hloss⟩

theorem StopsAt.bind {f : α → Parse β} {g : Nat → α → Metered β} (h : StopsAt size a b m u ctx t)
    (hf : ∀ v t', t.Within a t' → StopsAt size c d (f v) (fun k => g k v) ctx t') {p q : Int}
    (hgain : a + c ≤ p) (hloss : b ≤ q) (hlater : a + d ≤ q) :
    StopsAt size p q (m >>= f) (fun k => u k >>= g k) ctx t := by
  obtain ⟨⟨x, t'⟩, hx, hends⟩ := h
  match x with
  | .ok v =>
    obtain ⟨⟨x', t''⟩, hx', hends'⟩ := hf v t' hends.2
    have hcalls := hends.2.calls
    have hcalls' := hends'.within.calls
    refine ⟨(x', t''), fun fuel hfuel => ?_, ?_⟩
    · dsimp only at hfuel hcalls'
      exact (bind_ok (hx fuel (by dsimp only; omega)) _).trans (hx' fuel (by dsimp only; omega))
    · rw [Parse.bind_ok hends.1 f]
      exact hends'.after hends.2 hgain hlater
  | .error (.fault e) =>
    exact ⟨_, fun fuel hfuel => bind_error (hx fuel hfuel) _, Parse.bind_fail hends.1 f,
      hends.2.mono hloss⟩
  | .error .overflow =>
    exact ⟨_, fun fuel hfuel => bind_error (hx fuel hfuel) _, hends.1, hends.2.mono hloss⟩

/-- A step that leaves the state as it is. -/
theorem StopsAt.look {f : α → Parse β} {g : Nat → α → Metered β} {v : α}
    (hlook : m ctx t.toState = .ok v t.toState)
    (h : StopsAt size a b (f v) (fun k => g k v) ctx t) :
    StopsAt size a b (m >>= f) (fun k => Metered.of m >>= g k) ctx t :=
  .step (fun k => bind_ok (of_ok hlook) (g k)) (Parse.bind_ok hlook f)
    (.of_suffix (List.suffix_refl _)) h (by omega) (by omega)

/-- A step that takes an atom, which pays for what is read after it. -/
theorem StopsAt.take {f : α → Parse β} {g : Nat → α → Metered β} {v : α} {x : Atom}
    {ts : List Atom} (hatoms : t.atoms = x :: ts)
    (htake : m ctx t.toState = .ok v { t.toState with atoms := ts })
    (h : StopsAt size c d (f v) (fun k => g k v) ctx ⟨{ t.toState with atoms := ts }, t.calls⟩)
    (hgain : c ≤ a + 16) (hloss : d ≤ b + 16) :
    StopsAt size a b (m >>= f) (fun k => Metered.of m >>= g k) ctx t :=
  .step (fun k => bind_ok (of_ok htake) (g k)) (Parse.bind_ok htake f) (.of_cons hatoms) h
    (by omega) (by omega)

end

namespace Stops

variable {size n k : Nat} {α β : Type} {a b c d : Int} {m : Parse α} {u : Nat → Metered α}

theorem mono (h : Stops size n a b m u) (hk : k ≤ n) (hgain : a ≤ c) (hloss : b ≤ d) :
    Stops size k c d m u :=
  fun ctx t ht => (h ctx t (ht.trans hk)).mono hgain hloss

theorem ok (v : α) (hgain : 0 ≤ a) :
    Stops size n a b (Pure.pure v) (fun _ => Pure.pure v) :=
  fun _ _ _ => ⟨_, fun _ _ => rfl, rfl,
    (Tally.Within.of_suffix (List.suffix_refl _)).mono hgain⟩

theorem fail (cause : Cause) (hloss : 0 ≤ b) :
    Stops size n a b (Parse.fail cause : Parse α) (fun _ => of (Parse.fail cause)) :=
  fun _ _ _ => ⟨_, fun _ _ => rfl, rfl,
    (Tally.Within.of_suffix (List.suffix_refl _)).mono hloss⟩

theorem bind {f : α → Parse β} {g : Nat → α → Metered β} (h : Stops size n a b m u)
    (hf : ∀ v, Stops size n c d (f v) (fun k => g k v)) {p q : Int} (hgain : a + c ≤ p)
    (hloss : b ≤ q) (hlater : a + d ≤ q) :
    Stops size n p q (m >>= f) (fun k => u k >>= g k) :=
  fun ctx t ht => (h ctx t ht).bind (fun v t' hwithin => hf v ctx t' (hwithin.length_le ht)) hgain
    hloss hlater

/-- Where no atoms may be left, only the state without atoms is of interest. -/
theorem of_nil (h : ∀ ctx r calls, StopsAt size a b m u ctx ⟨⟨[], r⟩, calls⟩) :
    Stops size 0 a b m u := by
  rintro ctx ⟨⟨_ | ⟨x, ts⟩, r⟩, calls⟩ ht
  · exact h ctx r calls
  · simp at ht

/-- What comes after a reader that takes an atom has one less. -/
theorem bind_taken {f : α → Parse β} {g : Nat → α → Metered β} (h : Stops size (n + 1) a b m u)
    (ha : a < 0) (hf : ∀ v, Stops size n c d (f v) (fun k => g k v)) {p q : Int}
    (hgain : a + c ≤ p) (hloss : b ≤ q) (hlater : a + d ≤ q) :
    Stops size (n + 1) p q (m >>= f) (fun k => u k >>= g k) := by
  intro ctx t ht
  refine (h ctx t ht).bind (fun v t' hwithin => hf v ctx t' ?_) hgain hloss hlater
  exact Nat.le_of_lt_succ ((hwithin.length_lt ha).trans_le ht)

/-- A call is counted, and what it does has one less fuel. -/
theorem call {v : Nat → Metered α} (h : Stops size n a b m u)
    (hv : ∀ k, v (k + 1) = tick >>= fun _ => u k) (hgain : a + 1 ≤ c) (hloss : b + 1 ≤ d) :
    Stops size n c d m v := by
  intro ctx t ht
  obtain ⟨x, hx, hends⟩ := h ctx { t with calls := t.calls + 1 } ht
  have hwithin : t.Within 1 { t with calls := t.calls + 1 } :=
    ⟨List.suffix_refl _, Nat.le_succ _, by dsimp only; omega⟩
  refine ⟨x, fun fuel hfuel => ?_, hends.after hwithin (by omega) (by omega)⟩
  have hcalls := hends.within.calls
  dsimp only at hcalls
  obtain ⟨k, rfl⟩ : ∃ k, fuel = k + 1 := ⟨fuel - 1, by omega⟩
  rw [hv]
  exact hx k (by dsimp only; omega)

/-! ## Steps that look at the atoms -/

theorem operator {f : Option Operator → Parse α} {g : Nat → Option Operator → Metered α}
    (level : Level) (hnone : Stops size (n + 1) a b (f none) fun k => g k none)
    (hsome : ∀ op, Stops size n c d (f (some op)) fun k => g k (some op)) (hgain : c ≤ a + 16)
    (hloss : d ≤ b + 16) :
    Stops size (n + 1) a b (takeOperator level >>= f)
      (fun k => of (takeOperator level) >>= g k) := by
  intro ctx t ht
  rcases takeOperator_cases level ctx t.toState with ⟨x, ts, op, hatoms, -, -, htake⟩ | ⟨-, hskip⟩
  · have hts : ts.length ≤ n := by
      rw [hatoms, List.length_cons] at ht
      exact Nat.le_of_succ_le_succ ht
    exact .take hatoms htake (hsome op ctx _ hts) hgain hloss
  · exact .look hskip (hnone ctx t ht)

/-- Where no atoms are left, no operator is found. -/
theorem operator_nil {g : Nat → Option Operator → Metered α} (level : Level)
    (h : Stops size 0 a b m fun k => g k none) :
    Stops size 0 a b m (fun k => of (takeOperator level) >>= g k) :=
  .of_nil fun ctx _ _ => h ctx _ (Nat.le_refl 0)

theorem next {f : Option Atom → Parse α} {g : Nat → Option Atom → Metered α}
    (hnone : Stops size 0 a b (f none) fun k => g k none)
    (hsome : ∀ x, Stops size n c d (f (some x)) fun k => g k (some x)) (hgain : c ≤ a + 16)
    (hloss : d ≤ b + 16) :
    Stops size (n + 1) a b (Parse.next >>= f) (fun k => of Parse.next >>= g k) := by
  rintro ctx ⟨⟨_ | ⟨x, ts⟩, r⟩, calls⟩ ht
  · exact .look rfl (hnone ctx _ (Nat.le_refl 0))
  · exact .take rfl rfl (hsome x ctx _ (Nat.le_of_succ_le_succ ht)) hgain hloss

/-- A reader that goes by whether a word comes next, and takes it if it does. -/
theorem ifNext {m' : Parse α} {u' : Nat → Metered α} (text : String)
    (hskip : Stops size (n + 1) a b m u) (htake : Stops size n c d m' u') (hgain : c ≤ a + 16)
    (hloss : d ≤ b + 16) :
    Stops size (n + 1) a b
      (do if ← Parse.nextIs text then let _ ← Parse.next; m' else m)
      (fun k => do if ← of (Parse.nextIs text) then let _ ← of Parse.next; u' k else u k) := by
  rintro ctx ⟨⟨_ | ⟨x, ts⟩, r⟩, calls⟩ ht
  · exact .look rfl (hskip ctx _ ht)
  · refine .look (v := x.isWord text) rfl ?_
    cases x.isWord text with
    | false => exact hskip ctx _ ht
    | true => exact .take rfl rfl (htake ctx _ (Nat.le_of_succ_le_succ ht)) hgain hloss

theorem peek {f : Option Atom → Parse α} {g : Nat → Option Atom → Metered α}
    (hnone : Stops size 0 a b (f none) fun k => g k none)
    (hsome : ∀ x, Stops size n a b (f (some x)) fun k => g k (some x)) :
    Stops size n a b (Parse.peek >>= f) (fun k => of Parse.peek >>= g k) := by
  rintro ctx ⟨⟨_ | ⟨x, ts⟩, r⟩, calls⟩ ht
  · exact .look rfl (hnone ctx _ (Nat.le_refl 0))
  · exact .look rfl (hsome x ctx _ ht)

end Stops

/-! ## Operators

Of the sixteen calls that the first atom of an operand pays for, four at most go to the operand
itself and eleven to the signs, powers and chains around it. One is left, and so an expression that
is read is paid for even as one of many inputs. -/

section
variable {size n : Nat} {a b : Int} {level : Level} {m : Parse Expr}

theorem signed_stops (h : Stops size n (-12) 1 m (operand size)) :
    ∀ j ≤ n, Stops size j (-11) 2 (Parse.signed m j) (signed size) := by
  intro j
  induction j with
  | zero =>
    intro hj
    refine Stops.call (a := -12) (b := 1) ?_ (fun _ => rfl) (by decide) (by decide)
    exact .of_nil fun ctx _ _ => h ctx _ hj
  | succ j ih =>
    intro hj
    have hoperand := h.mono hj (Int.le_refl _) (Int.le_refl _)
    have hnegate : Stops size j (-11) 2 _ _ := (ih (Nat.le_of_succ_le hj)).bind
      (fun e => Stops.ok (b := 0) (Expr.negate e) (Int.le_refl 0)) (by decide) (by decide)
      (by decide)
    refine Stops.call (a := -12) (b := 1) ?_ (fun _ => rfl) (by decide) (by decide)
    exact Stops.ifNext "-" hoperand hnegate (by decide) (by decide)

theorem bind_pure (m : Parse Expr) : m >>= Pure.pure = m := by
  funext ctx s
  rw [Parse.bind_apply]
  cases m ctx s with
  | ok e s => rfl
  | fail f s => rfl

theorem powers_stops (h : Stops size n (-11) 2 m (signed size)) :
    ∀ j ≤ n, Stops size j (-10) 3 (Parse.powers m j) (powers size) := by
  intro j
  induction j with
  | zero =>
    intro hj
    have hleft := h.mono hj (Int.le_refl _) (Int.le_refl _)
    rw [Parse.powers, ← bind_pure m]
    refine Stops.call (a := -11) (b := 2) ?_ (fun _ => rfl) (by decide) (by decide)
    exact hleft.bind (fun left => Stops.operator_nil (b := 0) .power
      (Stops.ok left (Int.le_refl 0))) (by decide) (by decide) (by decide)
  | succ j ih =>
    intro hj
    have hleft := h.mono hj (Int.le_refl _) (Int.le_refl _)
    have hright : ∀ op left, Stops size j (-10) 3 _ _ := fun op left =>
      (ih (Nat.le_of_succ_le hj)).bind
        (fun right => Stops.ok (b := 0) (Expr.binary op left right) (Int.le_refl 0)) (by decide)
        (by decide) (by decide)
    refine Stops.call (a := -11) (b := 2) ?_ (fun _ => rfl) (by decide) (by decide)
    exact hleft.bind (fun left => Stops.operator (b := 0) .power (Stops.ok left (Int.le_refl 0))
      (fun op => hright op left) (by decide) (by decide)) (by decide) (by decide) (by decide)

theorem chainFrom_stops (h : Stops size n a b m (component size level)) (ha : a ≤ 15)
    (hb : b ≤ 15) :
    ∀ (j : Nat) (left : Expr), j ≤ n →
      Stops size j 1 0 (Parse.chainFrom level m j left) (chainFrom size level left) := by
  intro j
  induction j with
  | zero =>
    intro left _
    refine Stops.call (a := 0) (b := -1) ?_ (fun _ => rfl) (by decide) (by decide)
    exact Stops.operator_nil level (Stops.ok left (Int.le_refl 0))
  | succ j ih =>
    intro left hj
    have hright := h.mono (Nat.le_of_succ_le hj) (Int.le_refl _) (Int.le_refl _)
    -- The operator's atom pays for its right operand and for the next round.
    have hround : ∀ op, Stops size j (a + 1) (max a b) _ _ := fun op =>
      hright.bind (fun right => ih (.binary op left right) (Nat.le_of_succ_le hj)) (by omega)
        (by omega) (by omega)
    refine Stops.call (a := 0) (b := -1) ?_ (fun _ => rfl) (by decide) (by decide)
    exact Stops.operator level (Stops.ok left (Int.le_refl 0)) hround (by omega) (by omega)

theorem chain_stops (h : Stops size n a b m (component size level)) (hab : a ≤ b) (hb : b ≤ 15) :
    Stops size n (a + 2) (b + 1) (Parse.chain level m n) (chain size level) := by
  refine Stops.call (a := a + 1) (b := b) ?_ (fun _ => rfl) (by omega) (by omega)
  exact h.bind (fun left => chainFrom_stops h (by omega) hb n left (Nat.le_refl n)) (by omega)
    (by omega) (by omega)

end

/-! ## Calls -/

section
variable {size n : Nat} {a b : Int} {expr : Parse Expr} {ctx : Context} {t : Tally} {name : String}

theorem callOf_none {inputs : Procedure → Metered Expr} (h : t.registry.get? name = none) :
    callOf name inputs ctx t = of (fail (.unknownProcedure name)) ctx t := by
  have hlook : procedure? name ctx t.toState = .ok none t.toState := by rw [procedure?, h]
  exact bind_ok (of_ok hlook) _

theorem callOf_definer {inputs : Procedure → Metered Expr} {p : Procedure}
    (h : t.registry.get? name = some p) (hbody : p.body = .definer) :
    callOf name inputs ctx t = of (define p) ctx t := by
  have hlook : procedure? name ctx t.toState = .ok (some p) t.toState := by rw [procedure?, h]
  rw [callOf, bind_ok (of_ok hlook)]
  simp only [hbody]

theorem callOf_inputs {inputs : Procedure → Metered Expr} {p : Procedure}
    (h : t.registry.get? name = some p) (hbody : p.body ≠ .definer) :
    callOf name inputs ctx t = inputs p ctx t := by
  have hlook : procedure? name ctx t.toState = .ok (some p) t.toState := by rw [procedure?, h]
  rw [callOf, bind_ok (of_ok hlook)]
  simp only

theorem callOf_stops {inputs : Procedure → Parse Expr} {inputs' : Nat → Procedure → Metered Expr}
    (h : ∀ p ctx t, t.atoms.length ≤ n → t.registry.get? name = some p → p.body ≠ .definer →
      StopsAt size a b (inputs p) (fun k => inputs' k p) ctx t) (ha : 0 ≤ a) (hb : 0 ≤ b) :
    Stops size n a b (Parse.callOf name inputs) (fun k => callOf name (inputs' k)) := by
  intro ctx t ht
  have hrefl : t.Within 0 t := .of_suffix (List.suffix_refl _)
  cases hget : t.registry.get? name with
  | none =>
    exact .step (fun k => callOf_none hget) (Parse.callOf_none hget) hrefl
      (Stops.fail (a := a) (.unknownProcedure name) hb ctx t ht) (by omega) (by omega)
  | some p =>
    by_cases hbody : p.body = .definer
    · have hends : (define p ctx t.toState).Ends fun s => s.atoms <:+ t.atoms :=
        (define_effect hget hbody).imp fun s hs => hs.atoms
      exact .step (fun k => callOf_definer hget hbody) (Parse.callOf_definer hget hbody) hrefl
        (.of hends ha hb) (by omega) (by omega)
    · exact .step (fun k => callOf_inputs hget hbody) (Parse.callOf_inputs hget hbody) hrefl
        (h p ctx t ht hget hbody) (by omega) (by omega)

/-- The rounds do not depend on the number of inputs that are asked for: each takes an atom. -/
theorem naturalInputs_stops (he : Stops size n (-1) 9 expr (chain size .relational))
    (name : String) (count : Nat) :
    Stops size n 1 10 (Parse.naturalInputs expr name count) (naturalInputs size name count) := by
  induction count with
  | zero =>
    refine Stops.call (a := 0) (b := 0) ?_ (fun _ => rfl) (by decide) (by decide)
    exact Stops.ok [] (Int.le_refl 0)
  | succ count ih =>
    refine Stops.call (a := 0) (b := 9) ?_ (fun _ => rfl) (by decide) (by decide)
    refine Stops.peek (Stops.fail (.notEnoughInputs name) (by decide)) fun x => ?_
    dsimp only
    split
    · exact Stops.fail (.notEnoughInputs name) (by decide)
    · have hmore : ∀ e, Stops size n 1 10 _ _ := fun e =>
        ih.bind (fun es => Stops.ok (b := 0) (e :: es) (Int.le_refl 0)) (by decide) (by decide)
          (by decide)
      exact he.bind hmore (by decide) (by decide) (by decide)

theorem enclosedInputs_stops (he : Stops size n (-1) 9 expr (chain size .relational))
    (name : String) :
    ∀ j ≤ n, Stops size j 1 10 (Parse.enclosedInputs expr name j) (enclosedInputs size name) := by
  intro j
  induction j with
  | zero =>
    intro _
    refine Stops.call (a := 0) (b := 9) ?_ (fun _ => rfl) (by decide) (by decide)
    exact .of_nil fun ctx _ _ =>
      Stops.fail (.closingExpectedAfter name) (by decide) ctx _ (Nat.le_refl 0)
  | succ j ih =>
    intro hj
    refine Stops.call (a := 0) (b := 9) ?_ (fun _ => rfl) (by decide) (by decide)
    refine Stops.peek (Stops.fail (.closingExpectedAfter name) (by decide)) fun x => ?_
    dsimp only
    split
    · exact Stops.next (Stops.ok [] (Int.le_refl 0)) (fun _ => Stops.ok (b := 0) [] (Int.le_refl 0))
        (by decide) (by decide)
    · have hmore : ∀ e, Stops size j 1 10 _ _ := fun e =>
        (ih (Nat.le_of_succ_le hj)).bind (fun es => Stops.ok (b := 0) (e :: es) (Int.le_refl 0))
          (by decide) (by decide) (by decide)
      exact (he.mono hj (Int.le_refl _) (Int.le_refl _)).bind_taken (by decide) hmore (by decide)
        (by decide) (by decide)

theorem naturalCall_stops (he : Stops size n (-1) 9 expr (chain size .relational))
    (name : String) :
    Stops size n 2 11 (Parse.naturalCall expr name) (naturalCall size name) := by
  refine Stops.call (a := 1) (b := 10) ?_ (fun _ => rfl) (by decide) (by decide)
  refine callOf_stops (fun p ctx t ht hget hbody => ?_) (by decide) (by decide)
  have hinputs : Stops size n 1 10 _ _ := (naturalInputs_stops he p.name p.arity.natural).bind
    (fun inputs => Stops.ok (b := 0) (Expr.call p inputs) (Int.le_refl 0)) (by decide) (by decide)
    (by decide)
  have hrefl : t.Within 0 t := .of_suffix (List.suffix_refl _)
  -- Room is set aside before any input is read, so an overflow takes no atoms but the name.
  by_cases hroom : HasRoom size p.arity.natural
  · have hgo : reserve size p.arity.natural ctx t = some (.ok (), t) := by
      rw [reserve, reserving_eq_some_iff.mpr ⟨hroom, rfl⟩]
    exact .step (fun k => bind_ok hgo _) rfl hrefl (hinputs ctx t ht) (by decide) (by decide)
  · have hstop : reserve size p.arity.natural ctx t = some (.error .overflow, t) := by
      rw [reserve, reserving_eq_none_iff.mpr hroom]
    refine ⟨_, fun k _ => bind_error hstop _, ⟨name, ?_⟩, hrefl.mono (by decide)⟩
    rwa [Registry.reserves_of_inputs hget hbody]

theorem enclosedCall_stops (he : Stops size n (-1) 9 expr (chain size .relational))
    (name : String) :
    Stops size n 2 11 (Parse.enclosedCall expr n name) (enclosedCall size name) := by
  refine Stops.call (a := 1) (b := 10) ?_ (fun _ => rfl) (by decide) (by decide)
  refine callOf_stops (fun p ctx t ht hget hbody => ?_) (by decide) (by decide)
  have hinputs := enclosedInputs_stops he p.name n (Nat.le_refl n)
  have hcheck : ∀ inputs,
      Stops size n 0 0 (checkInputs p inputs) (fun _ => of (checkInputs p inputs)) := by
    intro inputs ctx t _
    refine StopsAt.of ?_ (Int.le_refl 0) (Int.le_refl 0)
    unfold checkInputs
    split
    · exact List.suffix_refl _
    · split
      · exact List.suffix_refl _
      · exact List.suffix_refl _
  exact hinputs.bind hcheck (by decide) (by decide) (by decide) ctx t ht

/-! ## Operands and expressions -/

theorem grouped_stops (he : Stops size n (-1) 9 expr (chain size .relational)) :
    Stops size n (-1) 9 (grouped expr) (fun k => do
      let e ← chain size .relational k
      match ← of next with
      | some a => if a.isWord ")" then return e else of (fail .closingExpected)
      | none => of (fail .closingExpected)) := by
  refine he.bind (c := 0) (d := 0) (fun e => ?_) (by decide) (by decide) (by decide)
  refine Stops.mono (n := n + 1) ?_ (Nat.le_succ n) (Int.le_refl 0) (Int.le_refl 0)
  refine Stops.next (c := 0) (d := 0) (Stops.fail .closingExpected (Int.le_refl 0)) (fun x => ?_)
    (by decide) (by decide)
  dsimp only
  split
  · exact Stops.ok e (Int.le_refl 0)
  · exact Stops.fail .closingExpected (Int.le_refl 0)

theorem enclosed_stops (he : Stops size n (-1) 9 expr (chain size .relational)) :
    Stops size n 0 10 (Parse.enclosed expr n) (enclosed size) := by
  refine Stops.call (a := -1) (b := 9) ?_ (fun _ => rfl) (by decide) (by decide)
  intro ctx t ht
  cases hname : enclosedName? t.toState with
  | none =>
    have hcalled : called ctx t.toState = .ok none t.toState := by rw [called, hname]
    have hread : Parse.enclosed expr n ctx t.toState = grouped expr ctx t.toState := by
      rw [enclosed_eq_calledOr, calledOr, hname]
    exact .step (fun k => bind_ok (of_ok hcalled) _) hread (.of_suffix (List.suffix_refl _))
      (grouped_stops he ctx t ht) (by decide) (by decide)
  | some name =>
    obtain ⟨rest, hatoms, -, -⟩ := enclosedName?_eq_some.mp hname
    have hcalled : called ctx t.toState = .ok (some name) t.toState := by rw [called, hname]
    have hnext : next ctx t.toState = .ok (some (.word name)) { t.toState with atoms := rest } := by
      rw [next, hatoms]
      rfl
    have hread : Parse.enclosed expr n ctx t.toState
        = Parse.enclosedCall expr n name ctx { t.toState with atoms := rest } := by
      rw [enclosed_eq_calledOr, calledOr, hname, hatoms]
      rfl
    have hrest : rest.length ≤ n := by
      rw [hatoms, List.length_cons] at ht
      exact Nat.le_of_succ_le ht
    exact .step (fun k => (bind_ok (of_ok hcalled) _).trans (bind_ok (of_ok hnext) _)) hread
      (.of_cons hatoms) (enclosedCall_stops he name ctx _ hrest) (by decide) (by decide)

theorem wordExpr_stops (he : Stops size n (-1) 9 expr (chain size .relational)) (w : String) :
    Stops size n 3 12 (Parse.wordExpr expr n w) (wordExpr size w) := by
  have hcall : ∀ {m : Parse Expr} {u : Nat → Metered Expr}, Stops size n 2 11 m u →
      (∀ k, wordExpr size w (k + 1) = tick >>= fun _ => u k) →
      Stops size n 3 12 m (wordExpr size w) :=
    fun h hw => h.call hw (by decide) (by decide)
  unfold Parse.wordExpr
  cases hnum : numeral? w with
  | some value => exact hcall (Stops.ok _ (by decide)) fun k => by simp only [wordExpr, hnum]
  | none =>
    dsimp only
    split
    · next hw =>
      exact hcall (Stops.ok _ (by decide)) fun k => by simp only [wordExpr, hnum, hw]
    · next hw =>
      exact hcall (Stops.ok _ (by decide)) fun k => by simp only [wordExpr, hnum, hw]
    · next hw =>
      have henclosed : Stops size n 2 11 _ (enclosed size) :=
        (enclosed_stops he).mono (Nat.le_refl n) (by decide) (by decide)
      exact hcall henclosed fun k => by simp only [wordExpr, hnum, hw]
    · next hw =>
      exact hcall (Stops.fail _ (by decide)) fun k => by simp only [wordExpr, hnum, hw]
    · exact hcall (naturalCall_stops he w) fun k => by simp only [wordExpr, hnum]

theorem operand_stops (he : Stops size n (-1) 9 expr (chain size .relational)) :
    Stops size (n + 1) (-12) 1 (Parse.operand expr n) (operand size) := by
  refine Stops.call (a := -13) (b := 0) ?_ (fun _ => rfl) (by decide) (by decide)
  rw [operand_eq_next]
  refine Stops.next (c := 3) (d := 12) (Stops.fail .endOfInstructions (Int.le_refl 0))
    (fun x => ?_) (by decide) (by decide)
  cases x with
  | word w => exact wordExpr_stops he w
  | number x => exact Stops.ok _ (by decide)
  | list items => exact Stops.ok _ (by decide)

/-- Readers of all levels, one on top of the other. -/
theorem levels_stop {m : Parse Expr} (h : Stops size n (-12) 1 m (operand size)) :
    Stops size n (-1) 9
      (Parse.chain .relational (Parse.chain .additive (Parse.chain .multiplicative
        (Parse.powers (Parse.signed m n) n) n) n) n) (chain size .relational) := by
  have hpowers := powers_stops (signed_stops h n (Nat.le_refl n)) n (Nat.le_refl n)
  have hfactor : Stops size n (-9) 4 _ (component size .multiplicative) :=
    hpowers.call (fun _ => rfl) (by decide) (by decide)
  have hproducts := chain_stops hfactor (by decide) (by decide)
  have hterm : Stops size n (-6) 6 _ (component size .additive) :=
    hproducts.call (fun _ => rfl) (by decide) (by decide)
  have hsums := chain_stops hterm (by decide) (by decide)
  have hside : Stops size n (-3) 8 _ (component size .relational) :=
    hsums.call (fun _ => rfl) (by decide) (by decide)
  exact chain_stops hside (by decide) (by decide)

/-- Reading an expression stops. If it succeeds, the atoms it takes pay for all calls, and if not
for all but nine. -/
theorem expression_stops (size : Nat) :
    ∀ n, Stops size n (-1) 9 (Parse.expression n) (expression size) := by
  intro n
  induction n with
  | zero =>
    have hoperand : Stops size 0 (-12) 1 (Parse.fail .endOfInstructions) (operand size) := by
      refine Stops.call (a := -13) (b := 0) ?_ (fun _ => rfl) (by decide) (by decide)
      exact .of_nil fun ctx _ _ =>
        Stops.fail .endOfInstructions (Int.le_refl 0) ctx _ (Nat.le_refl 0)
    exact levels_stop hoperand
  | succ n ih => exact levels_stop (operand_stops ih)

/-- Fuel for sixteen calls for each atom and a few more is enough to read an expression. -/
theorem expression_halts (size : Nat) (ctx : Context) (s : State) :
    ∃ x, (∀ fuel > 16 * s.atoms.length + 9, expression size fuel ctx ⟨s, 0⟩ = some x) ∧
      EndsAs size ⟨s, 0⟩ (-1) 9 (parseExpr ctx s) x := by
  obtain ⟨x, hx, hends⟩ := expression_stops size s.atoms.length ctx ⟨s, 0⟩ (Nat.le_refl _)
  have hpaid := hends.within.paid
  refine ⟨x, fun fuel hfuel => hx fuel ?_, hends⟩
  dsimp only at hpaid ⊢
  omega

end

end Metered

end Parse

end TurtleLogo
