import TurtleLogo.Proofs.Parse.Basic
import TurtleLogo.Proofs.Parse.Congruence
import TurtleLogo.Proofs.Parse.Definition
import TurtleLogo.Run.Basic

set_option autoImplicit false

/-! # What reading changes

Reading takes atoms off the front and enters the definitions it meets, whether it succeeds or fails
(`Parse.Effect`). What it reads depends on the running program only through the registry, the call
for a stop, the number of running procedures and their limit (`Parse.Result.Agrees`). -/

namespace TurtleLogo

/-! ## Definitions that stand in the atoms -/

/-- The entry that a definition makes in the registry. -/
def Definition.entry (d : Definition) (name : String) : Procedure :=
  ⟨Text.upper name, .defined d, d.arity⟩

/-- The definition of `name` stands in the atoms before those that are left: a word that the
registry knows as `TO`, and after it what reads as the definition. -/
def Definition.StandsIn (d : Definition) (name : String) (atoms left : List Atom) (r : Registry) :
    Prop :=
  ∃ word definer ts rest, .word word :: ts <:+ atoms ∧ r.get? word = some definer ∧
    definer.body = .definer ∧ Definition.parse ts = (.ok (name, d), rest) ∧ left <:+ rest

namespace Registry

/-- `r'` has what `r` has, except for definitions that stand in the atoms before those that are
left; those replace other definitions at most. -/
def Extends (atoms left : List Atom) (r r' : Registry) : Prop :=
  ∀ name, r'.get? name = r.get? name ∨
    ∃ (given : String) (d : Definition), foldName name = foldName given ∧
      r'.get? name = some (d.entry given) ∧ d.StandsIn given atoms left r ∧
      ∀ p, r.get? name = some p → p.isPrimitive = false

variable {atoms atoms' left left' : List Atom} {r r₁ r₂ : Registry}

theorem Extends.refl (atoms left : List Atom) (r : Registry) : Extends atoms left r r :=
  fun _ => Or.inl rfl

/-- An extension adds no new spelling of `TO`. -/
theorem Extends.definer (h : Extends atoms left r r₁) {word : String} {definer : Procedure}
    (hget : r₁.get? word = some definer) (hbody : definer.body = .definer) :
    r.get? word = some definer := by
  rcases h word with hsame | ⟨given, d, -, hnew, -, -⟩
  · rw [← hsame, hget]
  · rw [hget, Option.some.injEq] at hnew
    subst hnew
    simp [Definition.entry] at hbody

theorem Extends.trans (h₁ : Extends atoms left r r₁) (hatoms : atoms' <:+ atoms)
    (hleft : left' <:+ left) (h₂ : Extends atoms' left' r₁ r₂) : Extends atoms left' r r₂ := by
  intro name
  rcases h₂ name with hsame | ⟨given, d, hfold, hnew, hstands, hold⟩
  · rw [hsame]
    rcases h₁ name with hsame₁ | ⟨given, d, hfold, hnew, hstands, hold⟩
    · exact Or.inl hsame₁
    · obtain ⟨word, definer, ts, rest, hsuffix, hget, hbody, hparse, hrest⟩ := hstands
      exact Or.inr ⟨given, d, hfold, hnew,
        ⟨word, definer, ts, rest, hsuffix, hget, hbody, hparse, hleft.trans hrest⟩, hold⟩
  · -- What defines procedures now did so before, and what is replaced was no primitive before.
    obtain ⟨word, definer, ts, rest, hsuffix, hget, hbody, hparse, hrest⟩ := hstands
    refine Or.inr ⟨given, d, hfold, hnew, ?_, ?_⟩
    · exact ⟨word, definer, ts, rest, hsuffix.trans hatoms, h₁.definer hget hbody, hbody, hparse,
        hrest⟩
    · intro p hp
      rcases h₁ name with hsame | ⟨_, _, -, -, -, hold₁⟩
      · exact hold p (hsame.trans hp)
      · exact hold₁ p hp

theorem Extends.mono (h : Extends atoms left r r₁) (hs : atoms <:+ atoms') :
    Extends atoms' left r r₁ :=
  (Extends.refl atoms' left r).trans hs (List.suffix_refl left) h

theorem install_ok {name : String} {d : Definition} (h : r.install name d = .ok r₁) :
    r₁ = NameTable.insert r name (d.entry name) ∧
      ∀ p, r.get? name = some p → p.isPrimitive = false := by
  unfold install at h
  split at h
  · next p hp =>
    split at h
    · simp at h
    · next hprim =>
      simp only [Except.ok.injEq] at h
      refine ⟨h.symm, fun q hq => ?_⟩
      rw [hp, Option.some.injEq] at hq
      subst hq
      simpa using hprim
  · next hnone =>
    simp only [Except.ok.injEq] at h
    exact ⟨h.symm, fun q hq => by rw [hnone] at hq; simp at hq⟩

theorem install_error {name : String} {d : Definition} {cause : Cause}
    (h : r.install name d = .error cause) :
    ∃ p, r.get? name = some p ∧ p.isPrimitive = true ∧ cause = .redefinition p.name := by
  unfold install at h
  split at h
  · next p hp =>
    split at h
    · next hprim => exact ⟨p, hp, hprim, (Except.error.inj h).symm⟩
    · cases h
  · cases h

theorem get?_congr {name other : String} (h : foldName name = foldName other) :
    r.get? name = r.get? other := by
  simp only [NameTable.get?, h]

/-- Entering a definition that stands in the atoms extends the registry. -/
theorem Extends.install {name : String} {d : Definition} (h : r.install name d = .ok r₁)
    (hd : d.StandsIn name atoms left r) : Extends atoms left r r₁ := by
  obtain ⟨rfl, hold⟩ := install_ok h
  intro other
  rw [NameTable.get?_insert]
  split
  · next hfold =>
    refine Or.inr ⟨name, d, hfold, rfl, hd, fun p hp => hold p ?_⟩
    rw [← hp, get?_congr hfold]
  · exact Or.inl rfl

end Registry

namespace Parse

/-- What is no definition is faulted as one, and a definition that the registry does not take as one
of a primitive. -/
theorem kind_of_refused {r : Registry} {atoms rest : List Atom} {cause : Cause}
    (h : Definition.parse atoms = (.error cause, rest) ∨
      ∃ given d, Definition.parse atoms = (.ok (given, d), rest) ∧
        r.install given d = .error cause) :
    cause.kind = .badDefinition ∨ cause.kind = .redefinePrimitive := by
  rcases h with hparse | ⟨given, d, -, hinstall⟩
  · exact Or.inl (Definition.kind_of_parse_error hparse)
  · obtain ⟨p, -, -, rfl⟩ := Registry.install_error hinstall
    exact Or.inr rfl

/-! ## The effect of reading -/

/-- What reading does to the state: some atoms are taken, and definitions are entered that stand in
the atoms `seen` before those that are left. -/
structure Effect (seen : List Atom) (s s' : State) : Prop where
  atoms : s'.atoms <:+ s.atoms
  registry : Registry.Extends seen s'.atoms s.registry s'.registry

theorem Effect.refl (seen : List Atom) (s : State) : Effect seen s s :=
  ⟨List.suffix_refl s.atoms, Registry.Extends.refl seen s.atoms s.registry⟩

theorem Effect.take {seen : List Atom} {s : State} {atoms : List Atom} (h : atoms <:+ s.atoms) :
    Effect seen s { s with atoms } :=
  ⟨h, Registry.Extends.refl seen atoms s.registry⟩

theorem Effect.trans {seen : List Atom} {s s₁ s₂ : State} (h₁ : Effect seen s s₁)
    (hs : s.atoms <:+ seen) (h₂ : Effect s₁.atoms s₁ s₂) : Effect seen s s₂ where
  atoms := h₂.atoms.trans h₁.atoms
  registry := h₁.registry.trans (h₁.atoms.trans hs) h₂.atoms h₂.registry

/-- A reader that has no effect but `Effect`, and it sees all the atoms there are. -/
def Effective (α : Type) (m _m' : Parse α) : Prop :=
  ∀ ctx s, (m ctx s).Ends (Effect s.atoms s)

/-- The same of a reader that goes on after the atom `a`, which has been seen too. -/
def EffectiveAfter (a : Option Atom) (m _m' : Parse Expr) : Prop :=
  ∀ ctx s, (m ctx s).Ends (Effect (a.toList ++ s.atoms) s)

theorem Effective.bind {α β : Type} {m m' : Parse α} {f f' : α → Parse β}
    (hm : Effective α m m') (hf : ∀ a, Effective β (f a) (f' a)) :
    Effective β (m >>= f) (m' >>= f') := by
  intro ctx s
  refine (hm ctx s).bind (fun s₁ h₁ => h₁) fun a s₁ h₁ => ?_
  exact (hf a ctx s₁).imp fun s₂ h₂ => h₁.trans (List.suffix_refl s.atoms) h₂

theorem Effective.later {a : Option Atom} {m m' : Parse Expr} (h : Effective Expr m m') :
    EffectiveAfter a m m' := by
  intro ctx s
  have hseen : s.atoms <:+ a.toList ++ s.atoms := List.suffix_append a.toList s.atoms
  exact (h ctx s).imp fun s₁ h₁ => ⟨h₁.atoms, h₁.registry.mono hseen⟩

theorem define_effect {name : String} {p : Procedure} {ctx : Context} {s : State}
    (hget : s.registry.get? name = some p) (hbody : p.body = .definer) :
    (define p ctx s).Ends (Effect (.word name :: s.atoms) s) := by
  have hsuffix := Definition.parse_suffix s.atoms
  unfold define
  split
  · exact Effect.refl _ s
  · split
    · exact Effect.refl _ s
    · dsimp only
      split
      · next cause rest hparse =>
        rw [hparse] at hsuffix
        exact Effect.take hsuffix
      · next given d rest hparse =>
        rw [hparse] at hsuffix
        split
        · exact Effect.take hsuffix
        · -- Only here is anything entered.
          next registry hinstall =>
          refine ⟨hsuffix, Registry.Extends.install hinstall ?_⟩
          exact ⟨name, p, s.atoms, rest, List.suffix_refl _, hget, hbody, hparse,
            List.suffix_refl rest⟩

theorem callOf_effect (name : String) {inputs inputs' : Procedure → Parse Expr}
    (h : ∀ p, Effective Expr (inputs p) (inputs' p)) :
    EffectiveAfter (some (.word name)) (callOf name inputs) (callOf name inputs') := by
  intro ctx s
  cases hget : s.registry.get? name with
  | none =>
    rw [callOf_none hget]
    exact Effect.refl _ s
  | some p =>
    by_cases hbody : p.body = .definer
    · rw [callOf_definer hget hbody]
      exact define_effect hget hbody
    · rw [callOf_inputs hget hbody]
      exact (h p).later ctx s

theorem next_effect {k k' : Option Atom → Parse Expr} (h : ∀ a, EffectiveAfter a (k a) (k' a)) :
    Effective Expr (next >>= k) (next >>= k') := by
  intro ctx s
  have hk := h s.atoms.head? ctx { s with atoms := s.atoms.tail }
  have hseen : s.atoms.head?.toList ++ s.atoms.tail = s.atoms := by
    cases s.atoms <;> rfl
  rw [hseen] at hk
  exact hk.imp fun s₁ h₁ => ⟨h₁.atoms.trans (List.tail_suffix s.atoms), h₁.registry⟩

theorem calledOr_effect {call call' : String → Parse Expr} {other other' : Parse Expr}
    (hcall : ∀ name, EffectiveAfter (some (.word name)) (call name) (call' name))
    (hother : Effective Expr other other') :
    Effective Expr (calledOr call other) (calledOr call' other') := by
  intro ctx s
  unfold calledOr
  split
  · next name hname =>
    obtain ⟨rest, hatoms, -, -⟩ := enclosedName?_eq_some.mp hname
    have hk := hcall name ctx { s with atoms := rest }
    rw [hatoms, List.tail_cons]
    exact hk.imp fun s₁ h₁ => ⟨h₁.atoms.trans (hatoms ▸ List.suffix_cons _ rest), h₁.registry⟩
  · exact hother ctx s

theorem takeOperator_effect (level : Level) :
    Effective _ (takeOperator level) (takeOperator level) := by
  intro ctx s
  unfold takeOperator
  split
  · split
    · exact Effect.take (List.tail_suffix s.atoms)
    · exact Effect.refl _ s
  · exact Effect.refl _ s

theorem effective_congruence : Congruence Effective EffectiveAfter where
  ok _ _ s := Effect.refl s.atoms s
  fail _ _ _ s := Effect.refl s.atoms s
  bind := Effective.bind
  peek _ s := Effect.refl s.atoms s
  skip _ s := Effect.take (List.tail_suffix s.atoms)
  nextIs _ _ s := Effect.refl s.atoms s
  takeOperator := takeOperator_effect
  next := next_effect
  later := Effective.later
  call := callOf_effect
  calledOr := calledOr_effect

theorem expression_effect (n : Nat) (ctx : Context) (s : State) :
    (expression n ctx s).Ends (Effect s.atoms s) :=
  effective_congruence.expression n ctx s

/-! ## Progress -/

/-- A reader that takes at least one atom when it succeeds. -/
def Takes {α : Type} (m : Parse α) : Prop :=
  ∀ ⦃ctx s a s'⦄, m ctx s = .ok a s' → s'.atoms.length < s.atoms.length

theorem Effective.length_le {α : Type} {m m' : Parse α} (h : Effective α m m') {ctx : Context}
    {s s' : State} {a : α} (hm : m ctx s = .ok a s') : s'.atoms.length ≤ s.atoms.length := by
  have hends := h ctx s
  rw [hm] at hends
  exact hends.atoms.length_le

theorem Takes.bind {α β : Type} {m : Parse α} {f : α → Parse β} (hm : Takes m)
    (hf : ∀ a, Effective β (f a) (f a)) : Takes (m >>= f) := by
  intro ctx s b s' h
  obtain ⟨a, s₁, h₁, h₂⟩ := bind_eq_ok.mp h
  have hlt := hm h₁
  have hle := (hf a).length_le h₂
  omega

section
variable {m expr : Parse Expr}

theorem chain_takes (level : Level) (hm : Takes m) (he : Effective Expr m m) (n : Nat) :
    Takes (chain level m n) :=
  hm.bind fun left => effective_congruence.chainFrom level he n left

theorem powers_takes (hm : Takes m) (he : Effective Expr m m) (n : Nat) :
    Takes (powers m n) := by
  cases n with
  | zero => exact hm
  | succ n =>
    refine hm.bind fun left => effective_congruence.bind (takeOperator_effect .power) fun op => ?_
    cases op with
    | none => exact effective_congruence.ok left
    | some op =>
      exact effective_congruence.bind (effective_congruence.powers he n) fun right =>
        effective_congruence.ok (Expr.binary op left right)

theorem signed_takes (hm : Takes m) (n : Nat) : Takes (signed m n) := by
  induction n with
  | zero => exact hm
  | succ n ih =>
    intro ctx s e s' h
    obtain ⟨minus, s₁, hminus, hrest⟩ := bind_eq_ok.mp h
    obtain ⟨-, rfl⟩ := Result.ok.inj hminus
    cases minus with
    | false => exact hm hrest
    | true =>
      obtain ⟨a, s₂, hnext, hrest⟩ := bind_eq_ok.mp hrest
      have hle := effective_congruence.skip.length_le hnext
      have hlt := ih.bind (fun e => effective_congruence.ok (Expr.negate e)) hrest
      omega

theorem operand_takes (he : Effective Expr expr expr) (n : Nat) : Takes (operand expr n) := by
  intro ctx s e s' h
  rw [operand_eq_next] at h
  obtain ⟨a, s₁, hnext, hrest⟩ := bind_eq_ok.mp h
  obtain ⟨rfl, rfl⟩ := Result.ok.inj hnext
  have hends := effective_congruence.operandFrom he n s.atoms.head? ctx
    { s with atoms := s.atoms.tail }
  rw [hrest] at hends
  -- The first atom is gone already, and nothing puts atoms back.
  have hle : s'.atoms.length ≤ s.atoms.tail.length := hends.atoms.length_le
  cases hatoms : s.atoms with
  | nil => simp [hatoms, operandFrom, fail] at hrest
  | cons a ts =>
    rw [hatoms, List.tail_cons] at hle
    exact Nat.lt_succ_of_le hle

/-- An expression takes at least one atom. -/
theorem expression_takes (n : Nat) : Takes (expression n) := by
  cases n with
  | zero => intro ctx s e s' h; simp [expression, fail] at h
  | succ n =>
    have hexpr := effective_congruence.expression n
    have hsigned := effective_congruence.signed (effective_congruence.operand hexpr n) (n + 1)
    have hpowers := effective_congruence.powers hsigned (n + 1)
    have hproducts := effective_congruence.chain .multiplicative hpowers (n + 1)
    have hsums := effective_congruence.chain .additive hproducts (n + 1)
    refine chain_takes .relational ?_ hsums (n + 1)
    refine chain_takes .additive ?_ hproducts (n + 1)
    refine chain_takes .multiplicative ?_ hpowers (n + 1)
    refine powers_takes ?_ hsigned (n + 1)
    exact signed_takes (operand_takes hexpr n) (n + 1)

end

/-! ## What reading depends on -/

/-- Two contexts that differ at most in the names of the running procedures. -/
structure Context.Alike (ctx ctx' : Context) : Prop where
  size : ctx.calls.size = ctx'.calls.size
  limit : ctx.limit = ctx'.limit
  aborted : ctx.aborted = ctx'.aborted

/-- The same value or the same cause of failure, and the same state. A failure may have recorded
other procedures. -/
def Result.Agrees {α : Type} : Result α → Result α → Prop
  | .ok a s, .ok a' s' => a = a' ∧ s = s'
  | .fail f s, .fail f' s' => f.cause = f'.cause ∧ s = s'
  | _, _ => False

theorem Result.Agrees.refl {α : Type} (x : Result α) : x.Agrees x := by
  cases x with
  | ok a s => exact ⟨rfl, rfl⟩
  | fail f s => exact ⟨rfl, rfl⟩

/-- Two readers that agree wherever the contexts are alike. -/
def Independent (α : Type) (m m' : Parse α) : Prop :=
  ∀ ctx ctx' s, ctx.Alike ctx' → (m ctx s).Agrees (m' ctx' s)

theorem Independent.bind {α β : Type} {m m' : Parse α} {f f' : α → Parse β}
    (hm : Independent α m m') (hf : ∀ a, Independent β (f a) (f' a)) :
    Independent β (m >>= f) (m' >>= f') := by
  intro ctx ctx' s halike
  have hs := hm ctx ctx' s halike
  cases hr : m ctx s with
  | ok a s₁ =>
    cases hr' : m' ctx' s with
    | ok a' s₁' =>
      rw [hr, hr'] at hs
      obtain ⟨rfl, rfl⟩ := hs
      rw [bind_ok hr, bind_ok hr']
      exact hf a ctx ctx' s₁ halike
    | fail e' s₁' => rw [hr, hr'] at hs; exact hs.elim
  | fail e s₁ =>
    cases hr' : m' ctx' s with
    | ok a' s₁' => rw [hr, hr'] at hs; exact hs.elim
    | fail e' s₁' =>
      rw [hr, hr'] at hs
      rw [bind_fail hr, bind_fail hr']
      exact hs

theorem define_independent (p : Procedure) : Independent Expr (define p) (define p) := by
  intro ctx ctx' s halike
  unfold define
  rw [← halike.aborted, ← halike.size, ← halike.limit]
  split
  · exact Result.Agrees.refl _
  · split
    · exact ⟨rfl, rfl⟩
    · dsimp only
      split
      · exact ⟨rfl, rfl⟩
      · -- The stack that a fault records is all that differs, and agreement leaves it out.
        split
        · exact ⟨rfl, rfl⟩
        · exact ⟨rfl, rfl⟩

theorem callOf_independent (name : String) {inputs inputs' : Procedure → Parse Expr}
    (h : ∀ p, Independent Expr (inputs p) (inputs' p)) :
    Independent Expr (callOf name inputs) (callOf name inputs') := by
  intro ctx ctx' s halike
  cases hget : s.registry.get? name with
  | none =>
    rw [callOf_none hget, callOf_none hget]
    exact Result.Agrees.refl _
  | some p =>
    by_cases hbody : p.body = .definer
    · rw [callOf_definer hget hbody, callOf_definer hget hbody]
      exact define_independent p ctx ctx' s halike
    · rw [callOf_inputs hget hbody, callOf_inputs hget hbody]
      exact h p ctx ctx' s halike

theorem calledOr_independent {call call' : String → Parse Expr} {other other' : Parse Expr}
    (hcall : ∀ name, Independent Expr (call name) (call' name))
    (hother : Independent Expr other other') :
    Independent Expr (calledOr call other) (calledOr call' other') := by
  intro ctx ctx' s halike
  unfold calledOr
  split
  · next name hname => exact hcall name ctx ctx' _ halike
  · exact hother ctx ctx' s halike

theorem takeOperator_independent (level : Level) :
    Independent _ (takeOperator level) (takeOperator level) := by
  intro ctx ctx' s _
  have hsame : takeOperator level ctx' s = takeOperator level ctx s := rfl
  rw [hsame]
  exact Result.Agrees.refl _

theorem independent_congruence : Congruence Independent fun _ => Independent Expr where
  ok _ _ _ _ _ := ⟨rfl, rfl⟩
  fail _ _ _ _ _ _ := ⟨rfl, rfl⟩
  bind := Independent.bind
  peek _ _ _ _ := ⟨rfl, rfl⟩
  skip _ _ _ _ := ⟨rfl, rfl⟩
  nextIs _ _ _ _ _ := ⟨rfl, rfl⟩
  takeOperator := takeOperator_independent
  next h := Independent.bind (fun _ _ _ _ => ⟨rfl, rfl⟩) h
  later h := h
  call := callOf_independent
  calledOr := calledOr_independent

end Parse

/-! ## Reading in a running program -/

/-- Reading leaves all of a running program as it is but the registry. -/
theorem Engine.parse_effect (atoms : List Atom) (w : World) :
    ∃ s, Parse.Effect atoms ⟨atoms, w.procedures⟩ s ∧
      ((∃ e, Engine.parse atoms w = .done (e, s.atoms) { w with procedures := s.registry }) ∨
        ∃ f, Engine.parse atoms w = .exit (.fault f) { w with procedures := s.registry }) := by
  have heffect := Parse.expression_effect atoms.length w.parseContext ⟨atoms, w.procedures⟩
  unfold Engine.parse parseExpr
  split
  · next e s hread =>
    rw [hread] at heffect
    exact ⟨s, heffect, Or.inl ⟨e, rfl⟩⟩
  · next f s hread =>
    rw [hread] at heffect
    exact ⟨s, heffect, Or.inr ⟨f, rfl⟩⟩

/-- Reading changes nothing but the registry, and there it only enters definitions that stand in the
atoms it takes. What it reads, why it fails, which atoms it leaves and what it enters depend on
nothing but the registry, the call for a stop, the number of running procedures and their limit. -/
theorem reading_only_defines :
    (∀ (w : World) (atoms : List Atom),
      ∃ s, Parse.Effect atoms ⟨atoms, w.procedures⟩ s ∧
        ((∃ e, Engine.parse atoms w = .done (e, s.atoms) { w with procedures := s.registry }) ∨
          ∃ f, Engine.parse atoms w = .exit (.fault f) { w with procedures := s.registry })) ∧
    ∀ (w w' : World) (atoms : List Atom), w.procedures = w'.procedures →
      w.aborted = w'.aborted → w.calls.size = w'.calls.size → w.limit = w'.limit →
      (parseExpr w.parseContext ⟨atoms, w.procedures⟩).Agrees
        (parseExpr w'.parseContext ⟨atoms, w'.procedures⟩) := by
  refine ⟨fun w atoms => Engine.parse_effect atoms w, ?_⟩
  intro w w' atoms hprocedures haborted hsize hlimit
  have halike : w.parseContext.Alike w'.parseContext := ⟨hsize, hlimit, haborted⟩
  rw [← hprocedures]
  exact Parse.independent_congruence.expression atoms.length w.parseContext w'.parseContext
    ⟨atoms, w.procedures⟩ halike

/-- A definition without a name fails in the same way whichever procedure it is in. -/
theorem reading_only_defines_nameless :
    let procedures : Registry := ⟨[("to", ⟨"TO", .definer, .fixed 0⟩)]⟩
    let w : World := { procedures, calls := #["A"] }
    let w' : World := { procedures, calls := #["B"], repcount := 2 }
    (parseExpr w.parseContext ⟨[.word "to"], w.procedures⟩).Agrees
      (parseExpr w'.parseContext ⟨[.word "to"], w'.procedures⟩) :=
  reading_only_defines.2 _ _ [.word "to"] rfl rfl rfl rfl

end TurtleLogo
