import TurtleLogo.Proofs.Run.Conclude

set_option autoImplicit false

/-! # Choices

`AND` and `OR` look for the first decisive operand, `CASE` and `COND` for the first clause that
matches. What comes before it is evaluated once and in order, and what comes after it not at all.
`Inquiry` has what these searches have in common. -/

namespace TurtleLogo

/-! ## Asking in order -/

/-- A search for the first item about which a question gets the answer that is wanted. -/
structure Inquiry (α β : Type) where
  ask : α → Engine → Run Bool
  wanted : Bool
  /-- What is done about the item that is found. -/
  found : α → Engine → Run β
  /-- The value if there is no such item. -/
  missing : β
  steady_ask (x : α) : Steady (ask x)
  steady_found (x : α) : Steady (found x)

namespace Inquiry

variable {α β : Type} {q : Inquiry α β} {x : α} {xs pre post : List α} {w w₁ w₂ : World}
variable {o : Outcome β} {e : Exit}

/-- Asks about one item after the other. -/
def run (q : Inquiry α β) : List α → Engine → Run β
  | [], _ => pure q.missing
  | x :: xs, eng => do
    let b ← q.ask x eng
    if b == q.wanted then q.found x eng else q.run xs eng

/-- All the items have been asked about, one after the other, and none got the answer wanted. -/
inductive Passed (q : Inquiry α β) : List α → World → World → Prop
  | nil (w : World) : Passed q [] w w
  | cons {x : α} {xs : List α} {w w₁ w₂ : World}
    (first : Concludes (q.ask x) w (.done (!q.wanted) w₁)) (rest : Passed q xs w₁ w₂) :
    Passed q (x :: xs) w w₂

theorem steady_rest (q : Inquiry α β) (x : α) (h : Steady (q.run xs)) (b : Bool) :
    Steady fun eng => if b == q.wanted then q.found x eng else q.run xs eng := by
  cases hb : b == q.wanted with
  | true => simpa using q.steady_found x
  | false => simpa using h

theorem steady_run (q : Inquiry α β) (xs : List α) : Steady (q.run xs) := by
  induction xs with
  | nil => exact .const _
  | cons x xs ih => exact (q.steady_ask x).bind (q.steady_rest x ih)

theorem concludes_ask_iff {b : Bool} (h : Concludes (q.ask x) w (.done b w₁)) :
    Concludes (q.run (x :: xs)) w o ↔
      Concludes (fun eng => if b == q.wanted then q.found x eng else q.run xs eng) w₁ o :=
  concludes_bind_of_done (q.steady_ask x) (q.steady_rest x (q.steady_run xs) b) h

/-- Items that are passed leave the search to the rest. -/
theorem Passed.concludes_iff (h : q.Passed pre w w₁) :
    Concludes (q.run (pre ++ xs)) w o ↔ Concludes (q.run xs) w₁ o := by
  induction h with
  | nil w => rfl
  | cons first rest ih =>
    rw [List.cons_append, concludes_ask_iff first, ← ih]
    simp

/-- What is found decides, whatever comes after it. -/
theorem Passed.found_iff (h : q.Passed pre w w₁) (hx : Concludes (q.ask x) w₁ (.done q.wanted w₂)) :
    Concludes (q.run (pre ++ x :: post)) w o ↔ Concludes (q.found x) w₂ o := by
  rw [h.concludes_iff, concludes_ask_iff hx]
  simp

/-- A question that is not answered ends the search, whatever comes after it. -/
theorem Passed.exit_iff (h : q.Passed pre w w₁) (hx : Concludes (q.ask x) w₁ (.exit e w₂)) :
    Concludes (q.run (pre ++ x :: post)) w o ↔ o = .exit e w₂ := by
  rw [h.concludes_iff]
  exact concludes_bind_of_exit (q.steady_ask x) hx

theorem Passed.missing_iff (h : q.Passed xs w w₁) :
    Concludes (q.run xs) w o ↔ o = .done q.missing w₁ := by
  rw [← List.append_nil xs, h.concludes_iff]
  exact concludes_pure_iff

/-- A search that ends has found an item, has passed all of them, or was left while asking. -/
theorem cases_of_concludes (h : Concludes (q.run xs) w o) :
    (∃ pre x post w₁ w₂, xs = pre ++ x :: post ∧ q.Passed pre w w₁ ∧
      Concludes (q.ask x) w₁ (.done q.wanted w₂) ∧ Concludes (q.found x) w₂ o) ∨
    (∃ w₁, q.Passed xs w w₁ ∧ o = .done q.missing w₁) ∨
    (∃ pre x post w₁ e w₂, xs = pre ++ x :: post ∧ q.Passed pre w w₁ ∧
      Concludes (q.ask x) w₁ (.exit e w₂) ∧ o = .exit e w₂) := by
  induction xs generalizing w with
  | nil => exact .inr (.inl ⟨w, .nil w, concludes_pure_iff.mp h⟩)
  | cons x xs ih =>
    rcases h.bind_cases with ⟨b, w₁, hask, hrest⟩ | ⟨e, w₁, hask, rfl⟩
    · by_cases hb : b = q.wanted
      · subst hb
        exact .inl ⟨[], x, xs, w, w₁, rfl, .nil w, hask, by simpa using hrest⟩
      · obtain rfl : b = !q.wanted := by
          cases b <;> cases hw : q.wanted <;> simp_all
        rcases ih (by simpa using hrest) with
          ⟨pre, y, post, w₂, w₃, rfl, hpassed, hfound⟩ | ⟨w₂, hpassed, rfl⟩ |
          ⟨pre, y, post, w₂, e, w₃, rfl, hpassed, hexit⟩
        · exact .inl ⟨x :: pre, y, post, w₂, w₃, rfl, .cons hask hpassed, hfound⟩
        · exact .inr (.inl ⟨w₂, .cons hask hpassed, rfl⟩)
        · exact .inr (.inr ⟨x :: pre, y, post, w₂, e, w₃, rfl, .cons hask hpassed, hexit⟩)
    · exact .inr (.inr ⟨[], x, xs, w, e, w₁, rfl, .nil w, hask, rfl⟩)

end Inquiry

/-! ## Operands -/

variable {p : Procedure} {me : String} {d : Bool} {w w₁ w₂ : World}

/-- Forces operands for their truth values, up to the first that is `d`. -/
def operands (me : String) (d : Bool) : Inquiry Expr (Option Atom) where
  ask t eng := eng.condition t me
  wanted := d
  found _ _ := pure (some (.ofBool d))
  missing := some (.ofBool (!d))
  steady_ask t := .condition t me
  steady_found _ := .const _

theorem untilDecisive_eq (eng : Engine) (ts : List Expr) :
    Act.untilDecisive eng me d ts = (operands me d).run ts eng := by
  induction ts with
  | nil => rfl
  | cons t ts ih =>
    unfold Act.untilDecisive
    rw [ih]
    rfl

/-- The procedures that short-circuit, with the truth value that decides. -/
inductive Decides : Body → Bool → Prop
  | conjunction : Decides (.deferred .conjunction) false
  | disjunction : Decides (.deferred .disjunction) true

theorem Decides.finishes_iff (h : Decides p.body d) {ts : List Expr} {o : Outcome (Option Atom)} :
    Finishes (.invoke p ts) w o ↔ Concludes ((operands p.name d).run ts) w o := by
  have hstep : (fun eng => step eng (.invoke p ts)) = (operands p.name d).run ts := by
    funext eng
    rw [← untilDecisive_eq]
    show invoke eng p ts = _
    unfold invoke
    generalize p.body = body at h
    cases h with
    | conjunction => rfl
    | disjunction => rfl
  rw [finishes_iff_step, hstep]

theorem Decides.call_iff (h : Decides p.body d) (hw : w.Enterable) {ts : List Expr}
    {o : Outcome (Option Atom)} :
    Finishes (.force (.call p ts)) w o ↔
      ∃ o₁, Concludes ((operands p.name d).run ts) (w.entered p) o₁ ∧ o = o₁.closeCall := by
  simp only [finishes_call_iff hw, h.finishes_iff]

/-- `AND` and `OR` short-circuit. A call that can be entered forces its operands in order up to the
first that decides: it is then done with the value that decides, in the state that operand leaves,
and what the operands after it are makes no difference. If none decides, all have been forced and
the value is the other one. If an operand ends in a fault or an exit before one decides, so does the
call, and what the operands after it are makes no difference either. A call that finishes does so in
one of these ways. A call that cannot be entered forces none. -/
theorem short_circuit_exact (h : Decides p.body d) (w : World) :
    (w.Enterable →
      (∀ pre t w₁ w₂, (operands p.name d).Passed pre (w.entered p) w₁ →
        Concludes (fun eng => eng.condition t p.name) w₁ (.done d w₂) →
        ∀ post o, Finishes (.force (.call p (pre ++ t :: post))) w o ↔
          o = .done (some (.ofBool d)) w₂.dropCall) ∧
      (∀ ts w₁, (operands p.name d).Passed ts (w.entered p) w₁ →
        ∀ o, Finishes (.force (.call p ts)) w o ↔
          o = .done (some (.ofBool (!d))) w₁.dropCall) ∧
      (∀ pre t w₁ e w₂, (operands p.name d).Passed pre (w.entered p) w₁ →
        Concludes (fun eng => eng.condition t p.name) w₁ (.exit e w₂) →
        ∀ post o, Finishes (.force (.call p (pre ++ t :: post))) w o ↔
          o = (Outcome.exit e w₂).closeCall) ∧
      (∀ ts o, Finishes (.force (.call p ts)) w o →
        (∃ pre t post w₁ w₂, ts = pre ++ t :: post ∧
          (operands p.name d).Passed pre (w.entered p) w₁ ∧
          Concludes (fun eng => eng.condition t p.name) w₁ (.done d w₂)) ∨
        (∃ w₁, (operands p.name d).Passed ts (w.entered p) w₁) ∨
        (∃ pre t post w₁ e w₂, ts = pre ++ t :: post ∧
          (operands p.name d).Passed pre (w.entered p) w₁ ∧
          Concludes (fun eng => eng.condition t p.name) w₁ (.exit e w₂)))) ∧
    (¬ w.Enterable → ∃ e, ∀ ts o, Finishes (.force (.call p ts)) w o ↔ o = .exit e w) := by
  refine ⟨fun hw => ⟨?_, ?_, ?_, ?_⟩, finishes_call_of_not_enterable⟩
  · intro pre t w₁ w₂ hpassed hdecides post o
    have hinside : ∀ o₁, Concludes ((operands p.name d).run (pre ++ t :: post)) (w.entered p) o₁ ↔
        o₁ = .done (some (.ofBool d)) w₂ :=
      fun o₁ => (hpassed.found_iff hdecides).trans concludes_pure_iff
    simp only [h.call_iff hw, hinside, exists_eq_left]
    rfl
  · intro ts w₁ hpassed o
    simp only [h.call_iff hw, hpassed.missing_iff, exists_eq_left]
    rfl
  · intro pre t w₁ e w₂ hpassed hexit post o
    simp only [h.call_iff hw, hpassed.exit_iff hexit, exists_eq_left]
  · intro ts o ho
    obtain ⟨o₁, hinside, -⟩ := (h.call_iff hw).mp ho
    rcases Inquiry.cases_of_concludes hinside with
      ⟨pre, t, post, w₁, w₂, hts, hpassed, hdecides, -⟩ | ⟨w₁, hpassed, -⟩ |
      ⟨pre, t, post, w₁, e, w₂, hts, hpassed, hexit, -⟩
    · exact .inl ⟨pre, t, post, w₁, w₂, hts, hpassed, hdecides⟩
    · exact .inr (.inl ⟨w₁, hpassed⟩)
    · exact .inr (.inr ⟨pre, t, post, w₁, e, w₂, hts, hpassed, hexit⟩)

/-- Operands after one that decides need not even end. -/
theorem short_circuit_exact_endless :
    Finishes (.force (.call ⟨"OR", .deferred .disjunction, .unbounded 2 0⟩
        [.constant (.ofBool false), .constant (.ofBool true),
          .call ⟨"FOREVER", .primitive .forever, .fixed 1⟩ [.constant (.list [])]])) {}
      (.done (some (.ofBool true)) (World.dropCall { calls := #["OR"] })) := by
  obtain ⟨hentered, -⟩ := short_circuit_exact
    (p := ⟨"OR", .deferred .disjunction, .unbounded 2 0⟩) .disjunction {}
  obtain ⟨hdecides, -⟩ := hentered ⟨rfl, by decide⟩
  have hfirst : Concludes (fun eng => eng.condition (.constant (.ofBool false)) "OR")
      { calls := #["OR"] } (.done false { calls := #["OR"] }) := ⟨by simp, 1, rfl⟩
  have hsecond : Concludes (fun eng => eng.condition (.constant (.ofBool true)) "OR")
      { calls := #["OR"] } (.done true { calls := #["OR"] }) := ⟨by simp, 1, rfl⟩
  exact (hdecides [.constant (.ofBool false)] _ _ _ (.cons hfirst (.nil _)) hsecond _ _).mpr rfl

/-! ## Clauses -/

section Clauses

variable {key head : Atom} {code rest clauses pre post : List Atom} {c test : Atom}

/-- The atom is no list of a head and instructions. -/
def Malformed (c : Atom) : Prop :=
  ∀ head code, c ≠ .list (head :: code)

/-- What is wrong with an atom that is no clause. -/
def clauseFault : Atom → FaultKind
  | .list _ => .badInput
  | _ => .notAList

theorem clause_of_malformed (me : String) (h : Malformed c) (w : World) :
    Act.clause me c w = .exit (.fault { cause := .unsuitable (clauseFault c) me c }) w := by
  cases c with
  | number x => rfl
  | word text => rfl
  | list items =>
    cases items with
    | nil => rfl
    | cons head code => exact absurd rfl (h head code)

theorem clause_or_malformed (c : Atom) : (∃ head code, c = .list (head :: code)) ∨ Malformed c := by
  by_cases h : ∃ head code, c = .list (head :: code)
  · exact .inl h
  · exact .inr fun head code heq => h ⟨head, code, heq⟩

/-- Asks about the heads of clauses and runs the first that gets the answer. -/
def clauseSearch (me : String) (question : Atom → Engine → Run Bool)
    (hsteady : ∀ head, Steady (question head)) : Inquiry Atom (Option Atom) where
  ask c eng := do
    let (head, _) ← Act.clause me c
    question head eng
  wanted := true
  found c eng := do
    let (_, code) ← Act.clause me c
    eng.execute code true
  missing := none
  steady_ask c := (Steady.const (Act.clause me c)).bind fun x => hsteady x.1
  steady_found c := (Steady.const (Act.clause me c)).bind fun x => .run (.execute x.2 true)

variable {question : Atom → Engine → Run Bool} {hsteady : ∀ head, Steady (question head)}

theorem clauseSearch_cons (eng : Engine) :
    (clauseSearch me question hsteady).run (c :: rest) eng = (do
      let (head, code) ← Act.clause me c
      let b ← question head eng
      if b then eng.execute code true else (clauseSearch me question hsteady).run rest eng) := by
  funext w
  rcases clause_or_malformed c with ⟨head, code, rfl⟩ | hmalformed
  · -- Taking a clause apart changes nothing, so the search may do it a second time.
    show (question head eng >>= fun b => if b == true then eng.execute code true else _) w = _
    simp only [beq_true]
    rfl
  · have hfault := clause_of_malformed me hmalformed w
    rw [Run.bind_exit hfault]
    exact Run.bind_exit (Run.bind_exit hfault _) _

theorem ask_malformed (h : Malformed c) (w : World) :
    Concludes ((clauseSearch me question hsteady).ask c) w
      (.exit (.fault { cause := .unsuitable (clauseFault c) me c }) w) :=
  ⟨by simp, 0, Run.bind_exit (clause_of_malformed me h w) _⟩

/-! ### Keys -/

/-- The head of a `CASE` clause selects it for a key. -/
inductive Selects (key : Atom) : Atom → Prop
  | otherwise {text : String} (h : Text.sameAscii text "else" = true) : Selects key (.word text)
  | same {head : Atom} (hword : head.list? = none) (h : head.equal key = true) : Selects key head
  | among {keys : List Atom} {a : Atom} (hmem : a ∈ keys) (h : a.equal key = true) :
    Selects key (.list keys)

theorem caseMatches_iff : Act.caseMatches key head = true ↔ Selects key head := by
  constructor
  · intro h
    cases head with
    | list keys =>
      obtain ⟨a, hmem, hequal⟩ := List.any_eq_true.mp h
      exact .among hmem hequal
    | word text =>
      rcases Bool.or_eq_true_iff.mp h with helse | hequal
      · exact .otherwise helse
      · exact .same rfl hequal
    | number x => exact .same rfl h
  · intro h
    cases h with
    | otherwise helse => exact Bool.or_eq_true_iff.mpr (.inl helse)
    | among hmem hequal => exact List.any_eq_true.mpr ⟨_, hmem, hequal⟩
    | same hword hequal =>
      cases head with
      | list keys => cases hword
      | word text => exact Bool.or_eq_true_iff.mpr (.inr hequal)
      | number x => exact hequal

/-- A clause that is not selected. -/
def Refuses (key c : Atom) : Prop :=
  ∃ head code, c = .list (head :: code) ∧ ¬ Selects key head

/-- The search of `CASE`, which looks at heads only. -/
def keySearch (me : String) (key : Atom) : Inquiry Atom (Option Atom) :=
  clauseSearch me (fun head _ => pure (Act.caseMatches key head)) fun _ => .const _

theorem caseFrom_eq (eng : Engine) :
    Act.caseFrom eng me key clauses = (keySearch me key).run clauses eng := by
  induction clauses with
  | nil => rfl
  | cons c rest ih =>
    refine Eq.trans ?_ (clauseSearch_cons eng).symm
    unfold Act.caseFrom
    rw [ih]
    rfl

theorem caseOf_eq : (fun eng => Act.caseOf eng me (key :: .list clauses :: rest))
    = (keySearch me key).run clauses := by
  funext eng
  rw [← caseFrom_eq]
  rfl

theorem ask_key (me : String) (key head : Atom) (code : List Atom) (w : World) :
    Concludes ((keySearch me key).ask (.list (head :: code))) w
      (.done (Act.caseMatches key head) w) :=
  ⟨by simp, 0, rfl⟩

/-- Heads are compared without any change of the state. -/
theorem passed_of_refuses (h : ∀ c ∈ pre, Refuses key c) (w : World) :
    (keySearch me key).Passed pre w w := by
  induction pre with
  | nil => exact .nil w
  | cons c rest ih =>
    obtain ⟨⟨head, code, rfl, hrefuses⟩, hrest⟩ := List.forall_mem_cons.mp h
    have hfalse : Act.caseMatches key head = false := by
      rw [← Bool.not_eq_true, caseMatches_iff]
      exact hrefuses
    have hask := ask_key me key head code w
    rw [hfalse] at hask
    exact .cons hask (ih hrest)

/-! ### Tests -/

/-- The test of a `COND` clause has a truth value. `ELSE` is true; a list is run and anything else
evaluated, and if this gives a list, it is run for the truth value. -/
inductive Answers : Atom → World → Bool → World → Prop
  | otherwise {test : Atom} (h : test.isKeyword "else" = true) (w : World) : Answers test w true w
  | tested {test a : Atom} {b : Bool} {w w₁ w₂ : World} (h : test.isKeyword "else" = false)
    (hvalue : Concludes (fun eng => Act.testValue eng test) w (.done a w₁))
    (htruth : Concludes (fun eng => eng.truthFor a "COND") w₁ (.done b w₂)) : Answers test w b w₂

theorem Answers.concludes {b : Bool} (h : Answers test w b w₁) :
    Concludes (fun eng => Act.testHolds eng test) w (.done b w₁) := by
  unfold Act.testHolds
  -- The word is looked at before anything is evaluated.
  cases h with
  | otherwise helse => simpa only [if_pos helse] using concludes_pure_iff.mpr rfl
  | tested helse hvalue htruth =>
    have hsteady : Steady fun eng => Act.testValue eng test :=
      .of_compatible fun h _ he => h.testValue he test
    have htruths : ∀ a, Steady fun eng => eng.truthFor a "COND" :=
      fun a => .of_compatible fun h _ he => h.truthFor he a "COND"
    simp only [helse, Bool.false_eq_true, if_false]
    exact (concludes_bind_of_done hsteady (htruths _) hvalue).mpr htruth

/-- Clauses whose tests are evaluated one after the other, none of them true. -/
inductive Rejects : List Atom → World → World → Prop
  | nil (w : World) : Rejects [] w w
  | cons {test : Atom} {code rest : List Atom} {w w₁ w₂ : World} (first : Answers test w false w₁)
    (others : Rejects rest w₁ w₂) : Rejects (.list (test :: code) :: rest) w w₂

theorem steady_testHolds (test : Atom) : Steady fun eng => Act.testHolds eng test :=
  .of_compatible fun h _ he => h.testHolds he test

/-- The search of `COND`. -/
def testSearch (me : String) : Inquiry Atom (Option Atom) :=
  clauseSearch me (fun test eng => Act.testHolds eng test) steady_testHolds

theorem condFrom_eq (eng : Engine) :
    Act.condFrom eng me clauses = (testSearch me).run clauses eng := by
  induction clauses with
  | nil => rfl
  | cons c rest ih =>
    refine Eq.trans ?_ (clauseSearch_cons eng).symm
    unfold Act.condFrom
    rw [ih]
    rfl

theorem condClauses_eq : (fun eng => Act.condClauses eng me (.list clauses :: rest))
    = (testSearch me).run clauses := by
  funext eng
  rw [← condFrom_eq]
  rfl

theorem Rejects.passed (h : Rejects pre w w₁) : (testSearch me).Passed pre w w₁ := by
  induction h with
  | nil w => exact .nil w
  | cons first others ih => exact .cons first.concludes ih

end Clauses

/-- `CASE` and `COND` take the first clause that matches and run what it holds behind its head or
test. The clauses after it make no difference, not even malformed ones. `CASE` compares the key with
the heads and changes nothing; `COND` has evaluated the tests up to the one that is true, once each
and in order. If no clause matches, there is no value, and a malformed clause that is reached is a
fault. -/
theorem first_match_exact (me : String) (w : World) :
    (∀ key pre head code post rest, (∀ c ∈ pre, Refuses key c) → Selects key head →
      ∀ o, Concludes (fun eng => Act.caseOf eng me
          (key :: .list (pre ++ .list (head :: code) :: post) :: rest)) w o ↔
        Finishes (.execute code true) w o) ∧
    (∀ key clauses rest, (∀ c ∈ clauses, Refuses key c) →
      ∀ o, Concludes (fun eng => Act.caseOf eng me (key :: .list clauses :: rest)) w o ↔
        o = .done none w) ∧
    (∀ key pre c post rest, (∀ c ∈ pre, Refuses key c) → Malformed c →
      ∀ o, Concludes (fun eng => Act.caseOf eng me
          (key :: .list (pre ++ c :: post) :: rest)) w o ↔
        o = .exit (.fault { cause := .unsuitable (clauseFault c) me c }) w) ∧
    (∀ pre test code post rest w₁ w₂, Rejects pre w w₁ → Answers test w₁ true w₂ →
      ∀ o, Concludes (fun eng => Act.condClauses eng me
          (.list (pre ++ .list (test :: code) :: post) :: rest)) w o ↔
        Finishes (.execute code true) w₂ o) ∧
    (∀ clauses rest w₁, Rejects clauses w w₁ →
      ∀ o, Concludes (fun eng => Act.condClauses eng me (.list clauses :: rest)) w o ↔
        o = .done none w₁) ∧
    (∀ pre c post rest w₁, Rejects pre w w₁ → Malformed c →
      ∀ o, Concludes (fun eng => Act.condClauses eng me (.list (pre ++ c :: post) :: rest)) w o ↔
        o = .exit (.fault { cause := .unsuitable (clauseFault c) me c }) w₁) := by
  refine ⟨?_, ?_, ?_, ?_, ?_, ?_⟩
  · intro key pre head code post rest hpre hhead o
    have hask := ask_key me key head code w
    rw [caseMatches_iff.mpr hhead] at hask
    rw [caseOf_eq]
    exact (passed_of_refuses hpre w).found_iff hask
  · intro key clauses rest hclauses o
    rw [caseOf_eq]
    exact (passed_of_refuses hclauses w).missing_iff
  · intro key pre c post rest hpre hmalformed o
    rw [caseOf_eq]
    exact (passed_of_refuses hpre w).exit_iff (ask_malformed hmalformed w)
  · intro pre test code post rest w₁ w₂ hpre htest o
    rw [condClauses_eq]
    exact hpre.passed.found_iff htest.concludes
  · intro clauses rest w₁ hclauses o
    rw [condClauses_eq]
    exact hclauses.passed.missing_iff
  · intro pre c post rest w₁ hpre hmalformed o
    rw [condClauses_eq]
    exact hpre.passed.exit_iff (ask_malformed hmalformed w₁)

/-- A key in a list of keys, and an `ELSE` after a test that is false; what follows is no clause. -/
theorem first_match_exact_malformed_rest :
    Concludes (fun eng => Act.caseOf eng "CASE" [.number 2.0,
        .list [.list [.number 1.0, .word "lost"], .list [.list [.word "x", .word "2"]],
          .word "junk"]])
      { procedures := ⟨[]⟩ } (.done none { procedures := ⟨[]⟩ }) ∧
    Concludes (fun eng => Act.condClauses eng "COND"
        [.list [.list [.word "\"false", .word "lost"], .list [.word "eLsE"], .word "junk"]])
      { procedures := ⟨[]⟩ } (.done none { procedures := ⟨[]⟩ }) := by
  have hempty : Finishes (.execute [] true) { procedures := ⟨[]⟩ }
      (.done none { procedures := ⟨[]⟩ }) := ⟨by simp, 1, rfl⟩
  constructor
  · obtain ⟨hcase, -⟩ := first_match_exact "CASE" { procedures := ⟨[]⟩ }
    have hpre : ∀ c ∈ [Atom.list [.number 1.0, .word "lost"]], Refuses (.number 2.0) c := by
      intro c hc
      obtain rfl := List.mem_singleton.mp hc
      exact ⟨_, _, rfl, mt caseMatches_iff.mpr (by decide +kernel)⟩
    have hhead : Selects (.number 2.0) (.list [.word "x", .word "2"]) :=
      caseMatches_iff.mp (by decide +kernel)
    exact (hcase _ _ _ [] [.word "junk"] [] hpre hhead _).mpr hempty
  · obtain ⟨-, -, -, hcond, -⟩ := first_match_exact "COND" { procedures := ⟨[]⟩ }
    have hfalse : Answers (.word "\"false") { procedures := ⟨[]⟩ } false { procedures := ⟨[]⟩ } :=
      .tested (by decide) ⟨by simp, 1, rfl⟩ ⟨by simp, 0, rfl⟩
    exact (hcond _ _ [] [.word "junk"] [] _ _ (.cons hfalse (.nil _))
      (.otherwise (by decide) _) _).mpr hempty

end TurtleLogo
