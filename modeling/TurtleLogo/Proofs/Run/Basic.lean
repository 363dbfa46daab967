import TurtleLogo.Run.Interpret

set_option autoImplicit false

/-! # Runs applied to a state

How the parts of a run act on a state, and what can be said of the state in which a run ends. -/

namespace TurtleLogo

variable {α β : Type} {w w' : World}

namespace Run

theorem bind_apply (m : Run α) (f : α → Run β) (w : World) :
    (m >>= f) w
      = match m w with
        | .done a w => f a w
        | .exit e w => .exit e w
        | .exhausted => .exhausted := rfl

theorem bind_done {m : Run α} {a : α} (h : m w = .done a w') (f : α → Run β) :
    (m >>= f) w = f a w' := by
  rw [bind_apply, h]

theorem bind_exit {m : Run α} {e : Exit} (h : m w = .exit e w') (f : α → Run β) :
    (m >>= f) w = .exit e w' := by
  rw [bind_apply, h]

theorem bind_exhausted {m : Run α} (h : m w = .exhausted) (f : α → Run β) :
    (m >>= f) w = .exhausted := by
  rw [bind_apply, h]

theorem attempt_done {m : Run α} {a : α} (h : m w = .done a w') (f : Except Exit α → Run β) :
    attempt m f w = f (.ok a) w' := by
  rw [attempt, h]

theorem attempt_exit {m : Run α} {e : Exit} (h : m w = .exit e w') (f : Except Exit α → Run β) :
    attempt m f w = f (.error e) w' := by
  rw [attempt, h]

theorem attempt_exhausted {m : Run α} (h : m w = .exhausted) (f : Except Exit α → Run β) :
    attempt m f w = .exhausted := by
  rw [attempt, h]

/-- Goes on with a value, and passes on an exit. -/
def onValue (f : α → Run β) : Except Exit α → Run β
  | .ok a => f a
  | .error e => Run.exit e

/-- A sequence goes on after a value only. So what is said of runs that go on after any end is said
of sequences, too. -/
theorem bind_eq_attempt (m : Run α) (f : α → Run β) : m >>= f = attempt m (onValue f) := by
  funext w
  cases hr : m w with
  | done a w₁ => rw [bind_done hr, attempt_done hr]; rfl
  | exit e w₁ => rw [bind_exit hr, attempt_exit hr]; rfl
  | exhausted => rw [bind_exhausted hr, attempt_exhausted hr]

theorem bind_assoc {γ : Type} (m : Run α) (f : α → Run β) (g : β → Run γ) :
    (m >>= f) >>= g = m >>= fun a => f a >>= g := by
  funext w
  simp only [bind_apply]
  cases m w with
  | done a w₁ => rfl
  | exit e w₁ => rfl
  | exhausted => rfl

/-- A sequence that is done is one whose parts are done one after the other. -/
theorem bind_eq_done {m : Run α} {f : α → Run β} {b : β} :
    (m >>= f) w = .done b w' ↔ ∃ a w₁, m w = .done a w₁ ∧ f a w₁ = .done b w' := by
  rw [bind_apply]
  cases m w with
  | done a w₁ =>
    constructor
    · intro h
      exact ⟨a, w₁, rfl, h⟩
    · rintro ⟨_, _, heq, h⟩
      obtain ⟨rfl, rfl⟩ := Outcome.done.inj heq
      exact h
  | exit e w₁ => simp
  | exhausted => simp

theorem require_eq_done {cause : Cause} {x : Option α} {a : α} :
    require cause x w = .done a w' ↔ x = some a ∧ w = w' := by
  cases x with
  | none => simp [require, fail, exit]
  | some b => simp [require, Run.pure]

theorem heedAbort_stop (h : w.aborted = true) :
    heedAbort w = .exit (.fault { cause := .aborted }) w := by
  simp [heedAbort, h]

theorem heedAbort_go (h : w.aborted = false) : heedAbort w = .done () w := by
  simp [heedAbort, h]

end Run

theorem Engine.parse_ok {atoms : List Atom} {e : Expr} {s : Parse.State}
    (h : parseExpr w.parseContext ⟨atoms, w.procedures⟩ = .ok e s) :
    Engine.parse atoms w = .done (e, s.atoms) { w with procedures := s.registry } := by
  unfold Engine.parse
  rw [h]

theorem Engine.parse_fail {atoms : List Atom} {f : Fault} {s : Parse.State}
    (h : parseExpr w.parseContext ⟨atoms, w.procedures⟩ = .fail f s) :
    Engine.parse atoms w = .exit (.fault f) { w with procedures := s.registry } := by
  unfold Engine.parse
  rw [h]

/-- Reading in a running program ends as reading does, and leaves all but the registry as it is. -/
theorem Engine.parse_cases (atoms : List Atom) (w : World) :
    (∃ e s, parseExpr w.parseContext ⟨atoms, w.procedures⟩ = .ok e s ∧
      Engine.parse atoms w = .done (e, s.atoms) { w with procedures := s.registry }) ∨
    (∃ f s, parseExpr w.parseContext ⟨atoms, w.procedures⟩ = .fail f s ∧
      Engine.parse atoms w = .exit (.fault f) { w with procedures := s.registry }) := by
  cases hread : parseExpr w.parseContext ⟨atoms, w.procedures⟩ with
  | ok e s => exact Or.inl ⟨e, s, rfl, Engine.parse_ok hread⟩
  | fail f s => exact Or.inr ⟨f, s, rfl, Engine.parse_fail hread⟩

/-- The engine with a given amount of fuel. -/
def engineOn (fuel : Nat) : Engine :=
  ⟨interpret fuel, Engine.parse, fuel⟩

theorem interpret_eq_step (fuel : Nat) (job : Job) :
    interpret (fuel + 1) job = step (engineOn fuel) job :=
  funext (interpret_succ fuel job)

/-- `P` holds of the state in which a run ends, if it ends. -/
def Outcome.Ends (P : World → Prop) : Outcome α → Prop
  | .done _ w => P w
  | .exit _ w => P w
  | .exhausted => True

theorem Outcome.Ends.imp {P Q : World → Prop} {o : Outcome α} (h : o.Ends P)
    (hPQ : ∀ w, P w → Q w) : o.Ends Q := by
  cases o with
  | done a w => exact hPQ w h
  | exit e w => exact hPQ w h
  | exhausted => exact trivial

theorem Outcome.Ends.attempt {P Q : World → Prop} {m : Run α} {f : Except Exit α → Run β}
    (hm : (m w).Ends P) (hf : ∀ x w, P w → (f x w).Ends Q) : (Run.attempt m f w).Ends Q := by
  cases hr : m w with
  | done a w₁ =>
    rw [hr] at hm
    rw [Run.attempt_done hr]
    exact hf (.ok a) w₁ hm
  | exit e w₁ =>
    rw [hr] at hm
    rw [Run.attempt_exit hr]
    exact hf (.error e) w₁ hm
  | exhausted =>
    rw [Run.attempt_exhausted hr]
    exact trivial

theorem Outcome.Ends.bind {P Q : World → Prop} {m : Run α} {f : α → Run β}
    (hm : (m w).Ends P) (hPQ : ∀ w, P w → Q w) (hf : ∀ a w, P w → (f a w).Ends Q) :
    ((m >>= f) w).Ends Q := by
  rw [Run.bind_eq_attempt]
  refine hm.attempt fun x w₁ hw₁ => ?_
  cases x with
  | ok a => exact hf a w₁ hw₁
  | error e => exact hPQ w₁ hw₁

/-- The fault with which a run ends, if it ends with one. -/
def Outcome.fault? : Outcome α → Option Fault
  | .exit (.fault f) _ => some f
  | _ => none

theorem Outcome.exists_of_fault? {o : Outcome α} {f : Fault} (h : o.fault? = some f) :
    ∃ w, o = .exit (.fault f) w := by
  cases o with
  | done a w => cases h
  | exhausted => cases h
  | exit e w =>
    cases e with
    | fault g =>
      obtain rfl := Option.some.inj h
      exact ⟨w, rfl⟩
    | output a => cases h
    | stop => cases h

/-! ## Entering and leaving -/

theorem enter_aborted {name : String} (h : w.aborted = true) :
    enter name w = .exit (.fault { cause := .aborted }) w := by
  simp [enter, h]

theorem enter_tooDeep {name : String} (h : w.aborted = false) (hdeep : w.limit ≤ w.calls.size) :
    enter name w
      = .exit (.fault { cause := .tooDeep w.limit, stack := w.calls.toList }) w := by
  simp [enter, h, hdeep]

theorem enter_done {name : String} (h : w.aborted = false) (hdepth : w.calls.size < w.limit) :
    enter name w = .done () { w with calls := w.calls.push name } := by
  simp [enter, h, Nat.not_le.mpr hdepth]

/-- How a procedure is left, given how it ends inside. -/
def Outcome.closeCall : Outcome α → Outcome α
  | .done a w => .done a w.dropCall
  | .exit (.fault f) w => .exit (.fault (f.record w.calls)) w.dropCall
  | .exit e w => .exit e w.dropCall
  | .exhausted => .exhausted

theorem leaving_apply (m : Run α) (w : World) : leaving m w = (m w).closeCall := rfl

/-- How a frame is left, given how a run ends inside it. -/
def Outcome.closeFrame : Outcome Unit → Outcome (Option Atom)
  | .done () w => .done none { w with frames := w.frames.pop }
  | .exit .stop w => .done none { w with frames := w.frames.pop }
  | .exit (.output a) w => .done (some a) { w with frames := w.frames.pop }
  | .exit (.fault f) w => .exit (.fault f) { w with frames := w.frames.pop }
  | .exhausted => .exhausted

theorem framed_apply (m : Run Unit) (w : World) :
    framed m w = (m { w with frames := w.frames.push }).closeFrame := rfl

theorem Outcome.Ends.closeCall {P Q : World → Prop} {o : Outcome α} (h : o.Ends P)
    (hPQ : ∀ w, P w → Q w.dropCall) : o.closeCall.Ends Q := by
  cases o with
  | done a w => exact hPQ w h
  | exhausted => exact trivial
  | exit e w =>
    cases e with
    | fault f => exact hPQ w h
    | output a => exact hPQ w h
    | stop => exact hPQ w h

theorem Outcome.Ends.closeFrame {P Q : World → Prop} {o : Outcome Unit} (h : o.Ends P)
    (hPQ : ∀ w, P w → Q { w with frames := w.frames.pop }) : o.closeFrame.Ends Q := by
  cases o with
  | done a w => exact hPQ w h
  | exhausted => exact trivial
  | exit e w =>
    cases e with
    | fault f => exact hPQ w h
    | output a => exact hPQ w h
    | stop => exact hPQ w h

theorem Outcome.closeCall_ne_exhausted {o : Outcome α} (h : o ≠ .exhausted) :
    o.closeCall ≠ .exhausted := by
  cases o with
  | done a w => simp [closeCall]
  | exit e w => cases e <;> simp [closeCall]
  | exhausted => exact absurd rfl h

theorem Outcome.closeFrame_ne_exhausted {o : Outcome Unit} (h : o ≠ .exhausted) :
    o.closeFrame ≠ .exhausted := by
  cases o with
  | done a w => simp [closeFrame]
  | exit e w => cases e <;> simp [closeFrame]
  | exhausted => exact absurd rfl h

/-- Leaving a procedure raises no fault. -/
theorem Outcome.exists_of_closeCall {o : Outcome α} {f : Fault}
    (h : o.closeCall = .exit (.fault f) w') :
    ∃ f₁ w₁, o = .exit (.fault f₁) w₁ ∧ f = f₁.record w₁.calls := by
  cases o with
  | done a w => cases h
  | exhausted => cases h
  | exit e w =>
    cases e with
    | output a => cases h
    | stop => cases h
    | fault f₁ =>
      obtain ⟨hf, -⟩ := Outcome.exit.inj h
      exact ⟨f₁, w, rfl, (Exit.fault.inj hf).symm⟩

/-- Leaving a frame raises no fault. -/
theorem Outcome.exists_of_closeFrame {o : Outcome Unit} {f : Fault}
    (h : o.closeFrame = .exit (.fault f) w') : ∃ w₁, o = .exit (.fault f) w₁ := by
  cases o with
  | done a w => cases h
  | exhausted => cases h
  | exit e w =>
    cases e with
    | output a => cases h
    | stop => cases h
    | fault f₁ =>
      obtain ⟨hf, -⟩ := Outcome.exit.inj h
      obtain rfl := Exit.fault.inj hf
      exact ⟨w, rfl⟩

/-! ## Rounds of a numbered repetition -/

namespace Act

/-- How a run ends, with the repetition counter put to `n`. -/
def restore (n : Nat) : Outcome α → Outcome α
  | .done a w => .done a (withRepcount n w)
  | .exit e w => .exit e (withRepcount n w)
  | .exhausted => .exhausted

theorem Ends.restore {P Q : World → Prop} {o : Outcome α} (h : o.Ends P) (n : Nat)
    (hPQ : ∀ w, P w → Q (withRepcount n w)) : (restore n o).Ends Q := by
  cases o with
  | done a w => exact hPQ w h
  | exit e w => exact hPQ w h
  | exhausted => exact trivial

theorem exists_of_restore {n : Nat} {o : Outcome α} {e : Exit} (h : restore n o = .exit e w') :
    ∃ w₁, o = .exit e w₁ := by
  cases o with
  | done a w => cases h
  | exhausted => cases h
  | exit e₁ w =>
    obtain ⟨rfl, -⟩ := Outcome.exit.inj h
    exact ⟨w, rfl⟩

theorem restore_ne_exhausted (n : Nat) {o : Outcome α} (h : o ≠ .exhausted) :
    restore n o ≠ .exhausted := by
  cases o with
  | done a w => simp [restore]
  | exit e w => simp [restore]
  | exhausted => exact absurd rfl h

theorem keepingRepcount_apply (m : Run α) (w : World) :
    keepingRepcount m w = restore w.repcount (m w) := by
  unfold keepingRepcount restore
  cases m w with
  | done a w' => rfl
  | exit e w' => rfl
  | exhausted => rfl

/-- Runs `m` with the repetition counter at `i`, and puts it back. -/
def counted (i : Nat) (m : Run Unit) : Run Unit :=
  keepingRepcount do
    Run.modify fun w => { w with repcount := i }
    m

theorem counted_apply (i : Nat) (m : Run Unit) (w : World) :
    counted i m w = restore w.repcount (m (withRepcount i w)) :=
  keepingRepcount_apply _ w

/-- One round of a repetition: the counter is set before anything looks at it. -/
theorem repeatFrom_succ (body : Run Unit) (more : Nat → Bool) (rounds i : Nat) (w : World) :
    repeatFrom body more (rounds + 1) i w
      = if more i then
          if w.aborted then .exit (.fault { cause := .aborted }) w
          else (body >>= fun _ => repeatFrom body more rounds (i + 1)) (withRepcount i w)
        else .done () w := by
  rw [repeatFrom]
  split
  · cases habort : w.aborted with
    | true => exact Run.bind_exit (Run.heedAbort_stop habort) _
    | false => exact Run.bind_done (Run.heedAbort_go habort) _
  · rfl

/-- What the counter was before a repetition makes no difference. -/
theorem restore_repeatFrom (body : Run Unit) (more : Nat → Bool) (rounds i n k : Nat) (w : World) :
    restore n (repeatFrom body more rounds i (withRepcount k w))
      = restore n (repeatFrom body more rounds i w) := by
  cases rounds with
  | zero => rfl
  | succ rounds =>
    rw [repeatFrom_succ, repeatFrom_succ]
    split
    · rw [show (withRepcount k w).aborted = w.aborted from rfl]
      split
      · rfl
      · rfl
    · rfl

/-- A repetition that keeps the counter is a sequence of rounds that each keep it. -/
theorem keepingRepcount_repeatFrom (body : Run Unit) (more : Nat → Bool) (rounds i : Nat) :
    keepingRepcount (repeatFrom body more (rounds + 1) i)
      = if more i then do
          Run.heedAbort
          counted i body
          keepingRepcount (repeatFrom body more rounds (i + 1))
        else pure () := by
  funext w
  rw [keepingRepcount_apply, repeatFrom_succ]
  split
  · cases habort : w.aborted with
    | true =>
      rw [Run.bind_exit (Run.heedAbort_stop habort)]
      rfl
    | false =>
      rw [Run.bind_done (Run.heedAbort_go habort)]
      have hround := counted_apply i body w
      cases hbody : body (withRepcount i w) with
      | done a w₁ =>
        rw [hbody] at hround
        rw [Run.bind_done hround, keepingRepcount_apply]
        simp only [Bool.false_eq_true, if_false, Run.bind_done hbody]
        -- On the left the next round finds the counter of this one, on the right the first one.
        exact (restore_repeatFrom body more rounds (i + 1) w.repcount w.repcount w₁).symm
      | exit e w₁ =>
        rw [hbody] at hround
        rw [Run.bind_exit hround]
        simp only [Bool.false_eq_true, if_false, Run.bind_exit hbody]
        rfl
      | exhausted =>
        rw [hbody] at hround
        rw [Run.bind_exhausted hround]
        simp only [Bool.false_eq_true, if_false, Run.bind_exhausted hbody]
        rfl
  · rfl

end Act

end TurtleLogo
