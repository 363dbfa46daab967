import TurtleLogo.Proofs.Parse.Effect

set_option autoImplicit false

/-! # Reading with more atoms behind

An expression that can be read off a list of atoms is read the same if more atoms are put behind
the list, as long as those do not begin with an operator: no look-ahead of the reader sees past a
complete expression. The bound under which it is read may be larger, too, so the fact also says that
any bound that is not below the number of atoms is as good as any other. -/

namespace TurtleLogo.Parse

/-- The state with `more` behind its atoms. -/
def State.append (s : State) (more : List Atom) : State :=
  { s with atoms := s.atoms ++ more }

/-- What `m` reads off at most `n` atoms, `m'` reads off the same atoms with `more` behind them, and
it leaves `more` behind what `m` leaves. -/
def Local (more : List Atom) (n : Nat) {α : Type} (m m' : Parse α) : Prop :=
  ∀ ⦃ctx s a s'⦄, s.atoms.length ≤ n → m ctx s = .ok a s' →
    s'.atoms.length ≤ s.atoms.length ∧ m' ctx (s.append more) = .ok a (s'.append more)

namespace Local

variable {more : List Atom} {n n' k j j' : Nat} {α β : Type}

theorem mono {m m' : Parse α} (h : Local more n m m') (hk : k ≤ n) : Local more k m m' :=
  fun _ _ _ _ hs hm => h (Nat.le_trans hs hk) hm

theorem ok (a : α) : Local more n (Pure.pure a) (Pure.pure a) := by
  intro ctx s b s' _ h
  obtain ⟨rfl, rfl⟩ := Result.ok.inj h
  exact ⟨Nat.le_refl _, rfl⟩

theorem fail (cause : Cause) (m' : Parse α) : Local more n (Parse.fail cause) m' := by
  intro ctx s b s' _ h
  simp [Parse.fail] at h

theorem bind {m m' : Parse α} {f f' : α → Parse β} (hm : Local more n m m')
    (hf : ∀ a, Local more n (f a) (f' a)) : Local more n (m >>= f) (m' >>= f') := by
  intro ctx s b s' hs h
  obtain ⟨a, s₁, h₁, h₂⟩ := bind_eq_ok.mp h
  obtain ⟨hle₁, hm'⟩ := hm hs h₁
  obtain ⟨hle₂, hf'⟩ := hf a (Nat.le_trans hle₁ hs) h₂
  exact ⟨Nat.le_trans hle₂ hle₁, by rw [bind_ok hm', hf']⟩

/-! ## Looking ahead -/

theorem takeOperator (hmore : leading more = none) (level : Level) :
    Local more n (Parse.takeOperator level) (Parse.takeOperator level) := by
  intro ctx s op s' _ h
  rcases takeOperator_cases level ctx s with ⟨a, ts, op, hatoms, hop, hlevel, htake⟩ | ⟨hne, hskip⟩
  · rw [htake] at h
    obtain ⟨rfl, rfl⟩ := Result.ok.inj h
    have hmoved : (s.append more).atoms = a :: (ts ++ more) := by
      rw [State.append, hatoms, List.cons_append]
    exact ⟨by simp [hatoms], takeOperator_cons hmoved hop hlevel⟩
  · rw [hskip] at h
    obtain ⟨rfl, rfl⟩ := Result.ok.inj h
    refine ⟨Nat.le_refl _, takeOperator_skip fun op hop => hne op ?_⟩
    rwa [State.append, leading_append_of_none hmore] at hop

/-! ## Operators -/

variable {m m' : Parse Expr}

/-- The step from one operator to the next: an operator takes an atom, so the bound on what is left
goes down with the bound on the chain. -/
theorem bindOperator (hmore : leading more = none) (level : Level)
    {f f' : Option Operator → Parse α}
    (hnone : Local more (n + 1) (f none) (f' none))
    (hsome : ∀ op, Local more n (f (some op)) (f' (some op))) :
    Local more (n + 1) (Parse.takeOperator level >>= f) (Parse.takeOperator level >>= f') := by
  intro ctx s b s' hs h
  obtain ⟨op, s₁, htake, hrest⟩ := bind_eq_ok.mp h
  obtain ⟨hle, hmoved⟩ := takeOperator hmore level hs htake
  rw [bind_ok hmoved]
  cases op with
  | none =>
    obtain ⟨hle', hrest'⟩ := hnone (Nat.le_trans hle hs) hrest
    exact ⟨Nat.le_trans hle' hle, hrest'⟩
  | some op =>
    have hlt : s₁.atoms.length ≤ n := by
      rcases takeOperator_cases level ctx s with ⟨a, ts, _, hatoms, -, -, hcons⟩ | ⟨-, hskip⟩
      · rw [hcons] at htake
        obtain ⟨-, rfl⟩ := Result.ok.inj htake
        rw [hatoms, List.length_cons] at hs
        exact Nat.le_of_succ_le_succ hs
      · rw [hskip] at htake
        simp at htake
    obtain ⟨hle', hrest'⟩ := hsome op hlt hrest
    exact ⟨Nat.le_trans hle' hle, hrest'⟩

/-- Where no atoms are left, no operator is found, with or without `more`. -/
theorem takeOperator_nil (hmore : leading more = none) (level : Level) (ctx : Context) (s : State)
    (hs : s.atoms.length ≤ 0) :
    Parse.takeOperator level ctx (s.append more) = .ok none (s.append more) := by
  have hnil : s.atoms = [] := List.eq_nil_of_length_eq_zero (Nat.le_zero.mp hs)
  refine takeOperator_skip fun op hop => ?_
  rw [State.append, hnil, List.nil_append, hmore] at hop
  simp at hop

theorem chainFrom (hmore : leading more = none) (level : Level) (hm : Local more n m m') :
    ∀ (j j' : Nat) (left : Expr), j ≤ n → j ≤ j' →
      Local more j (Parse.chainFrom level m j left) (Parse.chainFrom level m' j' left) := by
  intro j
  induction j with
  | zero =>
    intro j' left _ _ ctx s e s' hs h
    obtain ⟨rfl, rfl⟩ := Result.ok.inj h
    refine ⟨Nat.le_refl _, ?_⟩
    -- The bound is used up, so no atoms are left: a larger bound finds no operator either.
    cases j' with
    | zero => rfl
    | succ j' =>
      rw [Parse.chainFrom, bind_ok (takeOperator_nil hmore level ctx s hs)]
      rfl
  | succ j ih =>
    intro j' left hj hj'
    obtain ⟨j', rfl⟩ : ∃ i, j' = i + 1 := ⟨j' - 1, by omega⟩
    refine bindOperator hmore level (ok left) fun op => ?_
    refine bind (hm.mono (by omega)) fun right => ?_
    exact ih j' (.binary op left right) (by omega) (by omega)

theorem chain (hmore : leading more = none) (level : Level) (hm : Local more n m m') (hj : j ≤ n)
    (hj' : j ≤ j') : Local more j (Parse.chain level m j) (Parse.chain level m' j') :=
  bind (hm.mono hj) fun left => chainFrom hmore level hm j j' left hj hj'

theorem powers (hmore : leading more = none) (hm : Local more n m m') :
    ∀ (j j' : Nat), j ≤ n → j ≤ j' → Local more j (Parse.powers m j) (Parse.powers m' j') := by
  intro j
  induction j with
  | zero =>
    intro j' _ _ ctx s e s' hs h
    obtain ⟨hle, hmoved⟩ := hm (Nat.le_trans hs (Nat.zero_le n)) h
    refine ⟨hle, ?_⟩
    cases j' with
    | zero => exact hmoved
    | succ j' =>
      rw [Parse.powers, bind_ok hmoved,
        bind_ok (takeOperator_nil hmore .power ctx s' (Nat.le_trans hle hs))]
      rfl
  | succ j ih =>
    intro j' hj hj'
    obtain ⟨j', rfl⟩ : ∃ i, j' = i + 1 := ⟨j' - 1, by omega⟩
    refine bind (hm.mono hj) fun left => bindOperator hmore .power (ok left) fun op => ?_
    exact bind (ih j' (by omega) (by omega)) fun right => ok (Expr.binary op left right)

/-- Whether a minus comes next is the same with `more` behind, as a minus is an operator. -/
theorem minus_append (hmore : leading more = none) {s : State}
    (h : ∀ ts, s.atoms ≠ .word "-" :: ts) : ∀ ts, (s.append more).atoms ≠ .word "-" :: ts := by
  intro ts heq
  have hminus : leading (s.atoms ++ more) = some .subtract := by
    rw [show s.atoms ++ more = .word "-" :: ts from heq]
    rfl
  rw [leading_append_of_none hmore] at hminus
  cases hatoms : s.atoms with
  | nil => simp [leading, hatoms] at hminus
  | cons a ts' =>
    rw [State.append, hatoms, List.cons_append, List.cons.injEq] at heq
    exact h ts' (by rw [hatoms, heq.1])

theorem signed (hmore : leading more = none) (hm : Local more n m m') :
    ∀ (j j' : Nat), j ≤ n → j ≤ j' → Local more j (Parse.signed m j) (Parse.signed m' j') := by
  intro j
  induction j with
  | zero =>
    intro j' hj _ ctx s e s' hs h
    have hnil : s.atoms = [] := List.eq_nil_of_length_eq_zero (Nat.le_zero.mp hs)
    rw [signed_plain m' j' (minus_append hmore (by simp [hnil]))]
    exact hm (Nat.le_trans hs hj) h
  | succ j ih =>
    intro j' hj hj' ctx s e s' hs h
    obtain ⟨j', rfl⟩ : ∃ i, j' = i + 1 := ⟨j' - 1, by omega⟩
    by_cases hminus : ∃ ts, s.atoms = .word "-" :: ts
    · obtain ⟨ts, hatoms⟩ := hminus
      have hmoved : (s.append more).atoms = .word "-" :: (ts ++ more) := by
        rw [State.append, hatoms, List.cons_append]
      rw [signed_minus m j hatoms] at h
      rw [signed_minus m' j' hmoved]
      have hts : ts.length ≤ j := by
        rw [hatoms, List.length_cons] at hs
        exact Nat.le_of_succ_le_succ hs
      have hrest := ih j' (by omega) (by omega)
      obtain ⟨hle, h'⟩ := bind hrest (fun e => ok (Expr.negate e)) hts h
      exact ⟨by rw [hatoms, List.length_cons]; exact Nat.le_succ_of_le hle, h'⟩
    · have hplain : ∀ ts, s.atoms ≠ .word "-" :: ts := fun ts hts => hminus ⟨ts, hts⟩
      rw [signed_plain m (j + 1) hplain] at h
      rw [signed_plain m' (j' + 1) (minus_append hmore hplain)]
      exact hm (Nat.le_trans hs hj) h

/-! ## Calls -/

variable {expr expr' : Parse Expr}

/-- A reader that fails where no atoms are left may go by the next atom, which then is known to be
there. -/
theorem bindPeek {f f' : Option Atom → Parse α} (hnone : ∀ ctx s a s', f none ctx s ≠ .ok a s')
    (hsome : ∀ a ⦃ctx s b s'⦄, s.atoms ≠ [] → s.atoms.length ≤ n → f (some a) ctx s = .ok b s' →
      s'.atoms.length ≤ s.atoms.length ∧ f' (some a) ctx (s.append more) = .ok b (s'.append more)) :
    Local more n (peek >>= f) (peek >>= f') := by
  intro ctx s b s' hs h
  have hpeek : ∀ s, peek ctx s = .ok s.atoms.head? s := fun s => rfl
  rw [bind_ok (hpeek _)] at h ⊢
  cases hhead : s.atoms.head? with
  | none =>
    rw [hhead] at h
    exact absurd h (hnone ctx s b s')
  | some a =>
    have hne : s.atoms ≠ [] := by
      rintro hnil
      simp [hnil] at hhead
    have hmoved : (s.append more).atoms.head? = some a := by
      rw [State.append, List.head?_append_of_ne_nil _ hne, hhead]
    rw [hhead] at h
    rw [hmoved]
    exact hsome a hne hs h

theorem skip {s : State} (hne : s.atoms ≠ []) (ctx : Context) :
    next ctx (s.append more)
      = .ok s.atoms.head? (State.append { s with atoms := s.atoms.tail } more) := by
  simp only [next, State.append, List.head?_append_of_ne_nil _ hne, List.tail_append_of_ne_nil hne]

/-- Likewise where the next atom is taken, and then one atom less is left. -/
theorem bindNext {f f' : Option Atom → Parse α} (hnone : ∀ ctx s a s', f none ctx s ≠ .ok a s')
    (hsome : ∀ a, Local more n (f (some a)) (f' (some a))) :
    Local more (n + 1) (next >>= f) (next >>= f') := by
  intro ctx s b s' hs h
  have hnext : ∀ s, next ctx s = .ok s.atoms.head? { s with atoms := s.atoms.tail } := fun s => rfl
  rw [bind_ok (hnext _)] at h ⊢
  cases hatoms : s.atoms with
  | nil =>
    rw [hatoms] at h
    exact absurd h (hnone ctx _ b s')
  | cons a ts =>
    rw [hatoms] at h
    have hmoved : (s.append more).atoms = a :: (ts ++ more) := by
      rw [State.append, hatoms, List.cons_append]
    rw [hmoved]
    have hts : ts.length ≤ n := by
      rw [hatoms, List.length_cons] at hs
      exact Nat.le_of_succ_le_succ hs
    obtain ⟨hle, h'⟩ := hsome a hts h
    exact ⟨by rw [List.length_cons]; exact Nat.le_succ_of_le hle, h'⟩

theorem naturalInputs (he : Local more n expr expr') (name : String) (count : Nat) :
    Local more n (Parse.naturalInputs expr name count) (Parse.naturalInputs expr' name count) := by
  induction count with
  | zero => exact ok []
  | succ count ih =>
    refine bindPeek (by simp [Parse.fail]) fun a ctx s es s' _ hs h => ?_
    dsimp only at h ⊢
    split at h
    · exact fail _ _ hs h
    · next hclosing =>
      rw [if_neg hclosing]
      exact bind he (fun e => bind ih fun es => ok (e :: es)) hs h

theorem enclosedInputs (he : Local more n expr expr') (name : String) :
    ∀ (j j' : Nat), j ≤ j' →
      Local more n (Parse.enclosedInputs expr name j) (Parse.enclosedInputs expr' name j') := by
  intro j
  induction j with
  | zero => intro j' _; exact fail _ _
  | succ j ih =>
    intro j' hj'
    obtain ⟨j', rfl⟩ : ∃ i, j' = i + 1 := ⟨j' - 1, by omega⟩
    refine bindPeek (by simp [Parse.fail]) fun a ctx s es s' hne hs h => ?_
    dsimp only at h ⊢
    split at h
    · next hclosing =>
      obtain ⟨_, s₁, hnext, hrest⟩ := bind_eq_ok.mp h
      obtain ⟨-, rfl⟩ := Result.ok.inj hnext
      obtain ⟨rfl, rfl⟩ := Result.ok.inj hrest
      rw [if_pos hclosing, bind_ok (skip hne ctx)]
      exact ⟨by simp, rfl⟩
    · next hclosing =>
      rw [if_neg hclosing]
      exact bind he (fun e => bind (ih j' (by omega)) fun es => ok (e :: es)) hs h

theorem checkInputs (p : Procedure) (inputs : List Expr) :
    Local more n (Parse.checkInputs p inputs) (Parse.checkInputs p inputs) := by
  unfold Parse.checkInputs
  split
  · exact fail _ _
  · split
    · exact ok _
    · exact fail _ _

theorem define (p : Procedure) : Local more n (Parse.define p) (Parse.define p) := by
  intro ctx s e s' _ h
  obtain ⟨habort, hdepth, given, d, rest, r, hparse, hinstall, rfl, rfl⟩ := define_inv h
  have hsuffix := Definition.parse_suffix s.atoms
  rw [hparse] at hsuffix
  exact ⟨hsuffix.length_le, define_ok habort hdepth (Definition.parse_append hparse) hinstall⟩

theorem callOf (name : String) {inputs inputs' : Procedure → Parse Expr}
    (h : ∀ p, Local more n (inputs p) (inputs' p)) :
    Local more n (Parse.callOf name inputs) (Parse.callOf name inputs') := by
  intro ctx s e s' hs hcall
  cases hget : s.registry.get? name with
  | none =>
    rw [callOf_none hget] at hcall
    simp at hcall
  | some p =>
    have hget' : (s.append more).registry.get? name = some p := hget
    by_cases hbody : p.body = .definer
    · rw [callOf_definer hget hbody] at hcall
      rw [callOf_definer hget' hbody]
      exact define p hs hcall
    · rw [callOf_inputs hget hbody] at hcall
      rw [callOf_inputs hget' hbody]
      exact h p hs hcall

theorem naturalCall (he : Local more n expr expr') (name : String) :
    Local more n (Parse.naturalCall expr name) (Parse.naturalCall expr' name) :=
  callOf name fun p => bind (naturalInputs he p.name p.arity.natural) fun inputs =>
    ok (Expr.call p inputs)

theorem enclosedCall (he : Local more n expr expr') (hj : j ≤ j') (name : String) :
    Local more n (Parse.enclosedCall expr j name) (Parse.enclosedCall expr' j' name) :=
  callOf name fun p => bind (enclosedInputs he p.name j j' hj) fun inputs => checkInputs p inputs

/-! ## Operands and expressions -/

theorem grouped (he : Local more n expr expr') :
    Local more n (Parse.grouped expr) (Parse.grouped expr') := by
  refine bind he fun e => (bindNext (by simp [Parse.fail]) fun a => ?_).mono (Nat.le_succ n)
  dsimp only
  split
  · exact ok e
  · exact fail _ _

theorem enclosedName?_append (hmore : leading more = none) {s : State} (hne : s.atoms ≠ []) :
    enclosedName? (s.append more) = enclosedName? s := by
  refine Option.ext fun name => ?_
  rw [enclosedName?_eq_some, enclosedName?_eq_some]
  obtain ⟨a, ts, hatoms⟩ := List.exists_cons_of_ne_nil hne
  simp only [State.append, hatoms, List.cons_append, List.cons.injEq]
  constructor
  · rintro ⟨_, ⟨rfl, rfl⟩, hname, hop⟩
    exact ⟨ts, ⟨rfl, rfl⟩, hname, by rwa [leading_append_of_none hmore] at hop⟩
  · rintro ⟨_, ⟨rfl, rfl⟩, hname, hop⟩
    exact ⟨ts ++ more, ⟨rfl, rfl⟩, hname, by rwa [leading_append_of_none hmore]⟩

/-- After an opening parenthesis the reader looks two atoms ahead. Where those are not there,
nothing can be read: an expression takes an atom at least. -/
theorem enclosed (hmore : leading more = none) (he : Local more n expr expr') (ht : Takes expr)
    (hj : j ≤ j') : Local more n (Parse.enclosed expr j) (Parse.enclosed expr' j') := by
  intro ctx s e s' hs h
  rw [enclosed_eq_calledOr] at h ⊢
  by_cases hne : s.atoms = []
  · -- With `more` behind, the parenthesis could call a name there.
    have hname : enclosedName? s = none := by
      unfold enclosedName?
      rw [hne]
    simp only [calledOr, hname] at h
    obtain ⟨_, _, hexpr, -⟩ := bind_eq_ok.mp h
    have hlt := ht hexpr
    rw [hne] at hlt
    exact absurd hlt (Nat.not_lt_zero _)
  · simp only [calledOr, enclosedName?_append hmore hne] at h ⊢
    cases hname : enclosedName? s with
    | none =>
      rw [hname] at h
      exact grouped he hs h
    | some name =>
      rw [hname] at h
      have hle : s.atoms.tail.length ≤ s.atoms.length := by simp
      have hlocal : Local more n (Parse.enclosedCall expr j name)
          (Parse.enclosedCall expr' j' name) := enclosedCall he hj name
      have hcall := hlocal (Nat.le_trans hle hs) h
      have hmoved : ({ s with atoms := s.atoms.tail } : State).append more
          = { s.append more with atoms := (s.append more).atoms.tail } := by
        simp only [State.append, List.tail_append_of_ne_nil hne]
      rw [hmoved] at hcall
      exact ⟨Nat.le_trans hcall.1 hle, hcall.2⟩

theorem wordExpr (hmore : leading more = none) (he : Local more n expr expr') (ht : Takes expr)
    (hj : j ≤ j') (w : String) :
    Local more n (Parse.wordExpr expr j w) (Parse.wordExpr expr' j' w) := by
  unfold Parse.wordExpr
  split
  · exact ok _
  · split
    · exact ok _
    · exact ok _
    · exact enclosed hmore he ht hj
    · exact fail _ _
    · exact naturalCall he w

theorem operand (hmore : leading more = none) (he : Local more n expr expr') (ht : Takes expr)
    (hj : j ≤ j') : Local more (n + 1) (Parse.operand expr j) (Parse.operand expr' j') := by
  rw [operand_eq_next, operand_eq_next]
  refine bindNext (by simp [operandFrom, Parse.fail]) fun a => ?_
  cases a with
  | word w => exact wordExpr hmore he ht hj w
  | number x => exact ok _
  | list items => exact ok _

theorem expression (hmore : leading more = none) :
    ∀ (n n' : Nat), n ≤ n' → Local more n (Parse.expression n) (Parse.expression n') := by
  intro n
  induction n with
  | zero => intro n' _; exact fail _ _
  | succ n ih =>
    intro n' hn'
    obtain ⟨n', rfl⟩ : ∃ i, n' = i + 1 := ⟨n' - 1, by omega⟩
    have hn : n ≤ n' := Nat.le_of_succ_le_succ hn'
    have hoperand := operand hmore (ih n' hn) (expression_takes n) hn
    have hsigned := signed hmore hoperand (n + 1) (n' + 1) (Nat.le_refl _) hn'
    have hpowers := powers hmore hsigned (n + 1) (n' + 1) (Nat.le_refl _) hn'
    have hproducts := chain hmore .multiplicative hpowers (Nat.le_refl _) hn'
    have hsums := chain hmore .additive hproducts (Nat.le_refl _) hn'
    exact chain hmore .relational hsums (Nat.le_refl _) hn'

end Local

/-- An expression is read the same with more atoms behind it, unless those begin with an
operator. -/
theorem parseExpr_append {ctx : Context} {atoms rest more : List Atom} {r r' : Registry} {e : Expr}
    (hmore : leading more = none) (h : parseExpr ctx ⟨atoms, r⟩ = .ok e ⟨rest, r'⟩) :
    parseExpr ctx ⟨atoms ++ more, r⟩ = .ok e ⟨rest ++ more, r'⟩ := by
  have hle : atoms.length ≤ (atoms ++ more).length := by simp
  exact (Local.expression hmore atoms.length (atoms ++ more).length hle (Nat.le_refl _) h).2

end TurtleLogo.Parse
