import TurtleLogo.Proofs.Parse.Effect
import TurtleLogo.Proofs.Parse.Enclosed
import TurtleLogo.Proofs.Parse.Header

set_option autoImplicit false

/-! # Parentheses that expressions take

What an expression takes of the atoms is enclosed (`Spans.expression`): each opening parenthesis is
closed by the same expression, except for one that calls `TO`, since a definition takes the atoms up
to its `END` and no closing parenthesis. This holds for registries that know no parenthesis as a
procedure; definitions leave them so. -/

namespace TurtleLogo

/-! ## Registries -/

/-- Whether a procedure with this body is `TO`. -/
def Body.isDefiner : Body → Bool
  | .definer => true
  | _ => false

/-- Whether the atom is a word that the registry knows as `TO`. -/
def Registry.definers (r : Registry) : Atom → Bool
  | .word w => (r.get? w).any (·.body.isDefiner)
  | _ => false

/-- A registry that leaves the parentheses alone and knows as `TO` what `isTo` tells, which are
words that can name procedures. -/
structure Registry.Regular (isTo : Atom → Bool) (r : Registry) : Prop where
  opening : r.get? "(" = none
  closing : r.get? ")" = none
  definers : r.definers = isTo
  named : ∀ w, isTo (.word w) = true → Definition.isName w = true

namespace Registry.Regular

variable {isTo : Atom → Bool} {r r' : Registry}

theorem isTo_eq_true_iff (h : r.Regular isTo) {a : Atom} :
    isTo a = true ↔ ∃ w p, a = .word w ∧ r.get? w = some p ∧ p.body = .definer := by
  rw [← h.definers]
  cases a with
  | word w =>
    cases hget : r.get? w with
    | none => simp [Registry.definers, hget]
    | some p => cases hbody : p.body <;> simp [Registry.definers, hget, Body.isDefiner, hbody]
  | number x => simp [Registry.definers]
  | list items => simp [Registry.definers]

theorem isParen_eq_false (h : r.Regular isTo) {a : Atom} (ha : isTo a = true) :
    a.isParen = false := by
  obtain ⟨w, p, rfl, -, -⟩ := h.isTo_eq_true_iff.mp ha
  have hname := h.named w ha
  simp only [Definition.isName, Bool.and_eq_true, bne_iff_ne] at hname
  simp [Atom.isParen, hname.1.1.2, hname.1.2]

/-- What is read as a definition has another name than a parenthesis. -/
theorem get?_mark {atoms left : List Atom} (h : Extends atoms left r r') {w : String} {c : Char}
    (hw : w.toList = [c]) (hmark : Definition.isMark c = true) (hname : Definition.isName w = false)
    (hnone : r.get? w = none) : r'.get? w = none := by
  rcases h w with hsame | ⟨given, d, hfold, -, ⟨_, _, ts, rest, -, -, -, hparse, -⟩, -⟩
  · rw [hsame, hnone]
  · have hgiven := (Definition.parse_ok hparse).1
    rw [Definition.eq_of_foldName_eq hmark hw hfold, hname] at hgiven
    cases hgiven

/-- Definitions that are entered leave a registry regular. -/
theorem extend {atoms left : List Atom} (h : r.Regular isTo) (hr : Extends atoms left r r') :
    r'.Regular isTo where
  opening := get?_mark (c := '(') hr rfl (by decide) (by decide) h.opening
  closing := get?_mark (c := ')') hr rfl (by decide) (by decide) h.closing
  definers := by
    rw [← h.definers]
    funext a
    cases a with
    | number x => rfl
    | list items => rfl
    | word w =>
      rcases hr w with hsame | ⟨given, d, -, hnew, -, hold⟩
      · simp only [Registry.definers, hsame]
      · have hnot : (r.get? w).any (·.body.isDefiner) = false := by
          cases hget : r.get? w with
          | none => rfl
          | some p =>
            have hprim := hold p hget
            cases hbody : p.body <;> simp_all [Procedure.isPrimitive, Body.isDefiner]
        simp only [Registry.definers, hnew, hnot]
        rfl
  named := h.named

end Registry.Regular

/-! ## Reading -/

namespace Parse

/-- A reader that keeps a registry regular and, if it succeeds, has taken atoms of the form `Q`. -/
def Spans (isTo : Atom → Bool) {α : Type} (Q : List Atom → Prop) (m : Parse α) : Prop :=
  ∀ ⦃ctx s a s'⦄, s.registry.Regular isTo → m ctx s = .ok a s' →
    s'.registry.Regular isTo ∧ ∃ ts, s.atoms = ts ++ s'.atoms ∧ Q ts

variable {isTo : Atom → Bool} {α β : Type}

theorem Spans.ok {Q : List Atom → Prop} (hnil : Q []) (a : α) :
    Spans isTo Q (Pure.pure a : Parse α) := by
  intro ctx s b s' hr h
  obtain ⟨rfl, rfl⟩ := Result.ok.inj h
  exact ⟨hr, [], rfl, hnil⟩

theorem Spans.fail {Q : List Atom → Prop} (cause : Cause) :
    Spans isTo Q (Parse.fail cause : Parse α) := by
  intro ctx s b s' hr h
  cases h

theorem Spans.bind {P Q R : List Atom → Prop} {m : Parse α} {f : α → Parse β}
    (hm : Spans isTo P m) (hf : ∀ a, Spans isTo Q (f a))
    (happend : ∀ {ts us}, P ts → Q us → R (ts ++ us)) : Spans isTo R (m >>= f) := by
  intro ctx s b s' hr h
  obtain ⟨a, s₁, h₁, h₂⟩ := bind_eq_ok.mp h
  obtain ⟨hr₁, ts, hts, hP⟩ := hm hr h₁
  obtain ⟨hr₂, us, hus, hQ⟩ := hf a hr₁ h₂
  exact ⟨hr₂, ts ++ us, by rw [hts, hus, List.append_assoc], happend hP hQ⟩

theorem Spans.map {Q : List Atom → Prop} {m : Parse α} (hm : Spans isTo Q m) (f : α → β) :
    Spans isTo Q (m >>= fun a => Pure.pure (f a)) := by
  intro ctx s b s' hr h
  obtain ⟨a, s₁, h₁, h₂⟩ := bind_eq_ok.mp h
  obtain ⟨-, rfl⟩ := Result.ok.inj h₂
  exact hm hr h₁

theorem Spans.peek {Q : List Atom → Prop} {f : Option Atom → Parse α}
    (hf : ∀ a, Spans isTo Q (f a)) : Spans isTo Q (Parse.peek >>= f) := by
  intro ctx s b s' hr h
  exact hf s.atoms.head? hr h

/-- A word that cannot name a procedure is not `TO`. -/
theorem enclosed_word {r : Registry} (hr : r.Regular isTo) {w : String}
    (hname : Definition.isName w = false) (hopen : w ≠ "(") (hclose : w ≠ ")") :
    Enclosed isTo [.word w] := by
  have hto : isTo (.word w) = false := by
    cases hto : isTo (.word w) with
    | false => rfl
    | true => simp [hr.named w hto] at hname
  exact .atom (by simp [Atom.isParen, hopen, hclose]) hto .nil

/-! ### Operators -/

theorem enclosed_operator {r : Registry} (hr : r.Regular isTo) {a : Atom} {op : Operator}
    (h : operator? a = some op) : Enclosed isTo [a] := by
  cases a with
  | number x => cases h
  | list items => cases h
  | word w =>
    have hword : Operator.ofWord? w = some op := h
    have hne : ∀ v, Operator.ofWord? v = none → w ≠ v := by
      rintro v hv rfl
      rw [hword] at hv
      cases hv
    exact enclosed_word hr (by simp [Definition.isName, isInfix, hword]) (hne _ rfl) (hne _ rfl)

theorem Spans.takeOperator (level : Level) :
    Spans isTo (Enclosed isTo) (Parse.takeOperator level) := by
  intro ctx s b s' hr h
  rcases takeOperator_cases level ctx s with ⟨a, ts, op, hatoms, hop, -, heq⟩ | ⟨-, heq⟩
  · obtain ⟨-, rfl⟩ := Result.ok.inj (heq.symm.trans h)
    exact ⟨hr, [a], hatoms, enclosed_operator hr hop⟩
  · obtain ⟨-, rfl⟩ := Result.ok.inj (heq.symm.trans h)
    exact ⟨hr, [], rfl, .nil⟩

variable {m expr : Parse Expr}

theorem Spans.chainFrom (level : Level) (hm : Spans isTo (Enclosed isTo) m) (n : Nat)
    (left : Expr) : Spans isTo (Enclosed isTo) (Parse.chainFrom level m n left) := by
  induction n generalizing left with
  | zero => exact .ok .nil left
  | succ n ih =>
    refine .bind (.takeOperator level) (fun op => ?_) Enclosed.append
    cases op with
    | none => exact .ok .nil left
    | some op => exact .bind hm (fun right => ih (.binary op left right)) Enclosed.append

theorem Spans.chain (level : Level) (hm : Spans isTo (Enclosed isTo) m) (n : Nat) :
    Spans isTo (Enclosed isTo) (Parse.chain level m n) :=
  .bind hm (fun left => .chainFrom level hm n left) Enclosed.append

theorem Spans.powers (hm : Spans isTo (Enclosed isTo) m) (n : Nat) :
    Spans isTo (Enclosed isTo) (Parse.powers m n) := by
  induction n with
  | zero => exact hm
  | succ n ih =>
    refine .bind hm (fun left => .bind (.takeOperator .power) (fun op => ?_) Enclosed.append)
      Enclosed.append
    cases op with
    | none => exact .ok .nil left
    | some op => exact ih.map fun right => Expr.binary op left right

theorem Spans.signed (hm : Spans isTo (Enclosed isTo) m) (n : Nat) :
    Spans isTo (Enclosed isTo) (Parse.signed m n) := by
  induction n with
  | zero => exact hm
  | succ n ih =>
    intro ctx s b s' hr h
    by_cases hminus : ∃ ts, s.atoms = .word "-" :: ts
    · obtain ⟨ts, hts⟩ := hminus
      rw [signed_minus m n hts] at h
      obtain ⟨hr', us, hus, henclosed⟩ := ih.map Expr.negate (s := { s with atoms := ts }) hr h
      refine ⟨hr', .word "-" :: us, by rw [hts]; exact congrArg _ hus, ?_⟩
      exact (enclosed_operator hr (a := .word "-") rfl).append henclosed
    · rw [signed_plain m (n + 1) fun ts hts => hminus ⟨ts, hts⟩] at h
      exact hm hr h

/-! ### Calls -/

theorem Spans.naturalInputs (he : Spans isTo (Enclosed isTo) expr) (name : String) (count : Nat) :
    Spans isTo (Enclosed isTo) (Parse.naturalInputs expr name count) := by
  induction count with
  | zero => exact .ok .nil []
  | succ count ih =>
    refine .peek fun a => ?_
    cases a with
    | none => exact .fail (.notEnoughInputs name)
    | some a =>
      dsimp only
      split
      · exact .fail (.notEnoughInputs name)
      · exact .bind he (fun e => ih.map fun es => e :: es) Enclosed.append

/-- Inputs up to a closing parenthesis take that parenthesis too. -/
theorem Spans.enclosedInputs (he : Spans isTo (Enclosed isTo) expr) (name : String) (n : Nat) :
    Spans isTo (fun ts => ∃ us, ts = us ++ [.word ")"] ∧ Enclosed isTo us)
      (Parse.enclosedInputs expr name n) := by
  induction n with
  | zero => exact .fail (.closingExpectedAfter name)
  | succ n ih =>
    intro ctx s b s' hr h
    cases hatoms : s.atoms with
    | nil =>
      simp only [Parse.enclosedInputs, bind_apply, Parse.peek, hatoms] at h
      cases h
    | cons a ts =>
      simp only [Parse.enclosedInputs, bind_apply, Parse.peek, hatoms, List.head?_cons] at h
      split at h
      · next hclose =>
        obtain rfl : a = .word ")" := by cases a <;> simp_all [Atom.isWord]
        obtain ⟨-, rfl⟩ := Result.ok.inj h
        exact ⟨hr, [.word ")"], by simp [hatoms], [], rfl, .nil⟩
      · have hmore := Spans.bind (R := fun ts => ∃ us, ts = us ++ [.word ")"] ∧ Enclosed isTo us) he
          (fun e => ih.map fun es => e :: es) (by
            rintro ts _ hts ⟨us, rfl, hus⟩
            exact ⟨ts ++ us, by simp, hts.append hus⟩)
        rw [← hatoms]
        exact hmore hr h

theorem Spans.checkInputs (p : Procedure) (inputs : List Expr) :
    Spans isTo (· = []) (Parse.checkInputs p inputs) := by
  unfold Parse.checkInputs
  split
  · exact .fail (.notEnoughInputs p.name)
  · split
    · exact .ok (Q := (· = [])) rfl (Expr.call p inputs)
    · exact .fail (.tooManyInputs p.name)

/-- A word that is called is `TO`, and a definition follows it, or it is none of the words that
matter here. -/
theorem callOf_inv {name : String} {inputs : Procedure → Parse Expr} {ctx : Context} {s s' : State}
    {e : Expr} (hr : s.registry.Regular isTo) (h : callOf name inputs ctx s = .ok e s') :
    (isTo (.word name) = true ∧ s'.registry.Regular isTo ∧
      ∃ ds x, s.atoms = ds ++ s'.atoms ∧ Definition.parse ds = (.ok x, [])) ∨
    (isTo (.word name) = false ∧ Atom.isParen (.word name) = false ∧
      ∃ p, inputs p ctx s = .ok e s') := by
  cases hget : s.registry.get? name with
  | none =>
    rw [callOf_none hget] at h
    cases h
  | some p =>
    by_cases hbody : p.body = .definer
    · left
      rw [callOf_definer hget hbody] at h
      have heffect : (define p ctx s).Ends (Effect (.word name :: s.atoms) s) :=
        define_effect hget hbody
      rw [h] at heffect
      obtain ⟨-, -, given, d, rest, r, hparse, -, -, rfl⟩ := define_inv h
      obtain ⟨ds, hds⟩ : rest <:+ s.atoms := by
        simpa [hparse] using Definition.parse_suffix s.atoms
      have hwhole : Definition.parse (ds ++ rest) = (.ok (given, d), [] ++ rest) := by
        rw [hds, hparse, List.nil_append]
      exact ⟨hr.isTo_eq_true_iff.mpr ⟨name, p, rfl, hget, hbody⟩, hr.extend heffect.registry, ds,
        (given, d), hds.symm, Definition.parse_of_append hwhole⟩
    · right
      rw [callOf_inputs hget hbody] at h
      have hto : isTo (.word name) = false := by
        rw [← Bool.not_eq_true, hr.isTo_eq_true_iff]
        rintro ⟨w, q, hw, hq, hdefiner⟩
        obtain rfl := Atom.word.inj hw
        rw [hget, Option.some.injEq] at hq
        exact hbody (hq ▸ hdefiner)
      have hopen : name ≠ "(" := by
        rintro rfl
        simp [hr.opening] at hget
      have hclose : name ≠ ")" := by
        rintro rfl
        simp [hr.closing] at hget
      exact ⟨hto, by simp [Atom.isParen, hopen, hclose], p, h⟩

theorem Spans.naturalCall (he : Spans isTo (Enclosed isTo) expr) (name : String) :
    Spans isTo (fun ts => Enclosed isTo (.word name :: ts)) (Parse.naturalCall expr name) := by
  intro ctx s e s' hr h
  rcases callOf_inv hr h with ⟨hto, hr', ds, x, hds, hparse⟩ | ⟨hto, hparen, p, hinputs⟩
  · exact ⟨hr', ds, hds, by simpa using Enclosed.definition hto hparse .nil⟩
  · have hspans := (Spans.naturalInputs he p.name p.arity.natural).map (Expr.call p)
    obtain ⟨hr', ts, hts, henclosed⟩ := hspans hr hinputs
    exact ⟨hr', ts, hts, .atom hparen hto henclosed⟩

/-- A call in parentheses takes the closing one, unless it defines something. -/
theorem Spans.enclosedCall (he : Spans isTo (Enclosed isTo) expr) (n : Nat) (name : String) :
    Spans isTo (fun ts => Enclosed isTo (.word "(" :: .word name :: ts))
      (Parse.enclosedCall expr n name) := by
  intro ctx s e s' hr h
  rcases callOf_inv hr h with ⟨hto, hr', ds, x, hds, hparse⟩ | ⟨hto, hparen, p, hinputs⟩
  · exact ⟨hr', ds, hds, by simpa using Enclosed.stray hto hparse .nil⟩
  · have hspans := Spans.bind (R := fun ts => ∃ us, ts = us ++ [.word ")"] ∧ Enclosed isTo us)
      (Spans.enclosedInputs he p.name n) (fun inputs => Spans.checkInputs p inputs) (by
        rintro ts _ hts rfl
        simpa using hts)
    obtain ⟨hr', _, hts, us, rfl, henclosed⟩ := hspans hr hinputs
    refine ⟨hr', _, hts, ?_⟩
    have hcall : Enclosed isTo (.word name :: us) := .atom hparen hto henclosed
    simpa using Enclosed.group (by simpa using hto) hcall .nil

/-! ### Parentheses and expressions -/

/-- An opening parenthesis that does not call `TO` has no definition right behind it. -/
theorem head?_of_enclosedName?_eq_none {s : State} {ts us : List Atom}
    (hr : s.registry.Regular isTo) (hnone : enclosedName? s = none) (hatoms : s.atoms = ts ++ us)
    (h : Enclosed isTo ts) : ts.head?.any isTo = false := by
  have hopen : isTo (.word "(") = false := by
    cases hto : isTo (.word "(") with
    | false => rfl
    | true => exact absurd (hr.named _ hto) (by decide)
  cases h with
  | nil => rfl
  | atom _ hto _ => simpa using hto
  | group _ _ _ => simpa using hopen
  | stray _ _ _ => simpa using hopen
  | @definition a ds vs x hto hparse _ =>
    -- A name follows, which is no operator, so the parenthesis would call `TO`.
    obtain ⟨w, p, rfl, hget, -⟩ := hr.isTo_eq_true_iff.mp hto
    obtain ⟨declared, close, hspells, rfl⟩ := Definition.spells_of_parse hparse
    have hinfix : Operator.ofWord? x.1 = none := by
      have hname := hspells.named
      simp only [Definition.isName, isInfix, Bool.and_eq_true] at hname
      simpa using hname.1.1.1.2
    have hcalled : enclosedName? s = some w := by
      refine enclosedName?_eq_some.mpr ⟨_, hatoms, by simp [NameTable.contains, hget], ?_⟩
      simpa [leading, Definition.spelling, operator?, Atom.word?] using hinfix
    rw [hnone] at hcalled
    cases hcalled

theorem Spans.enclosed (he : Spans isTo (Enclosed isTo) expr) (n : Nat) :
    Spans isTo (fun ts => Enclosed isTo (.word "(" :: ts)) (Parse.enclosed expr n) := by
  intro ctx s e s' hr h
  rw [enclosed_eq_calledOr] at h
  unfold calledOr at h
  split at h
  · next name hname =>
    obtain ⟨rest, hatoms, -, -⟩ := enclosedName?_eq_some.mp hname
    rw [hatoms, List.tail_cons] at h
    obtain ⟨hr', ts, hts, henclosed⟩ :=
      Spans.enclosedCall he n name (s := { s with atoms := rest }) hr h
    exact ⟨hr', .word name :: ts, by rw [hatoms]; exact congrArg _ hts, henclosed⟩
  · next hnone =>
    obtain ⟨e', s₁, hexpr, hrest⟩ := bind_eq_ok.mp h
    obtain ⟨hr₁, ts, hts, henclosed⟩ := he hr hexpr
    have hhead := head?_of_enclosedName?_eq_none hr hnone hts henclosed
    cases hatoms : s₁.atoms with
    | nil =>
      simp only [bind_apply, Parse.next, hatoms] at hrest
      cases hrest
    | cons a us =>
      simp only [bind_apply, Parse.next, hatoms, List.head?_cons, List.tail_cons] at hrest
      split at hrest
      · next hclose =>
        obtain rfl : a = .word ")" := by cases a <;> simp_all [Atom.isWord]
        obtain ⟨-, rfl⟩ := Result.ok.inj hrest
        exact ⟨hr₁, ts ++ [.word ")"], by simp [hts, hatoms], .group hhead henclosed .nil⟩
      · cases hrest

/-- A word that is read as a constant is no parenthesis and no name. -/
theorem Spans.constant {w : String} (hname : Definition.isName w = false) (hopen : w ≠ "(")
    (hclose : w ≠ ")") (e : Expr) :
    Spans isTo (fun ts => Enclosed isTo (.word w :: ts)) (Pure.pure e : Parse Expr) := by
  intro ctx s e' s' hr h
  exact Spans.ok (Q := fun ts => Enclosed isTo (.word w :: ts))
    (enclosed_word hr hname hopen hclose) e hr h

theorem Spans.wordExpr (he : Spans isTo (Enclosed isTo) expr) (n : Nat) (w : String) :
    Spans isTo (fun ts => Enclosed isTo (.word w :: ts)) (Parse.wordExpr expr n w) := by
  unfold Parse.wordExpr
  split
  · next value hvalue =>
    have hnumeral : isNumeral w = true := by
      cases hparse : Decimal.Numeral.parse? w.toList <;> simp_all [numeral?, isNumeral]
    refine .constant (by simp [Definition.isName, hnumeral]) ?_ ?_ _
    all_goals
      rintro rfl
      cases hvalue
  · split
    · next hchars =>
      exact .constant (by simp [Definition.isName, hchars]) (ne_of_head hchars (by decide))
        (ne_of_head hchars (by decide)) _
    · next hchars =>
      exact .constant (by simp [Definition.isName, hchars]) (ne_of_head hchars (by decide))
        (ne_of_head hchars (by decide)) _
    · next hchars =>
      obtain rfl : w = "(" := String.toList_inj.mp hchars
      exact .enclosed he n
    · exact .fail .strayClosing
    · exact .naturalCall he w

theorem Spans.operand (he : Spans isTo (Enclosed isTo) expr) (n : Nat) :
    Spans isTo (Enclosed isTo) (Parse.operand expr n) := by
  intro ctx s e s' hr h
  rw [operand_eq_next] at h
  simp only [bind_apply, Parse.next] at h
  cases hatoms : s.atoms with
  | nil =>
    rw [hatoms] at h
    cases h
  | cons a ts =>
    rw [hatoms, List.head?_cons, List.tail_cons] at h
    cases a with
    | word w =>
      obtain ⟨hr', us, hus, henclosed⟩ :=
        Spans.wordExpr he n w (s := { s with atoms := ts }) hr h
      exact ⟨hr', .word w :: us, congrArg _ hus, henclosed⟩
    | number y =>
      obtain ⟨-, rfl⟩ := Result.ok.inj h
      exact ⟨hr, [.number y], rfl, .atom rfl (hr.definers ▸ rfl) .nil⟩
    | list items =>
      obtain ⟨-, rfl⟩ := Result.ok.inj h
      exact ⟨hr, [.list items], rfl, .atom rfl (hr.definers ▸ rfl) .nil⟩

/-- What an expression takes is enclosed. -/
theorem Spans.expression (n : Nat) : Spans isTo (Enclosed isTo) (Parse.expression n) := by
  induction n with
  | zero => exact .fail .endOfInstructions
  | succ n ih =>
    exact .chain .relational (.chain .additive (.chain .multiplicative
      (.powers (.signed (.operand ih n) (n + 1)) (n + 1)) (n + 1)) (n + 1)) (n + 1)

end Parse

end TurtleLogo
