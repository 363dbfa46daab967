import TurtleLogo.Proofs.Run.Fuel
import TurtleLogo.Proofs.Run.Hosts
import TurtleLogo.Session

set_option autoImplicit false

/-! # The limit on nested calls

The limit decides where a program is cut off, and nothing else. Only calls and `TO` look at it, and
all they can do is to refuse. The interpreter does not go on after the fault with which they do.
A host could, and tell from the fault what the limit is; but if hosts end with such a fault
whenever they are handed one, then a run that ends otherwise ends the same way under every larger
limit. -/

namespace TurtleLogo

variable {α β : Type}

/-! ## Reading -/

namespace Parse

/-- The same context under another limit. -/
def Context.withLimit (ctx : Context) (limit : Nat) : Context :=
  { ctx with limit }

/-- Reading was refused a definition for being nested too deep. -/
def Result.TooDeep : Result α → Prop
  | .ok _ _ => False
  | .fail f _ => f.cause.kind = .depthExceeded

/-- Unless it is refused a definition, the first reads what the second reads under any larger
limit. -/
def Lifts (α : Type) (m m' : Parse α) : Prop :=
  ∀ ctx limit s, ctx.limit ≤ limit → (m ctx s).TooDeep ∨ m' (ctx.withLimit limit) s = m ctx s

theorem Lifts.bind {m m' : Parse α} {f f' : α → Parse β} (hm : Lifts α m m')
    (hf : ∀ a, Lifts β (f a) (f' a)) : Lifts β (m >>= f) (m' >>= f') := by
  intro ctx limit s hle
  have hs := hm ctx limit s hle
  cases hr : m ctx s with
  | ok a s₁ =>
    rw [hr] at hs
    have hr' : m' (ctx.withLimit limit) s = .ok a s₁ := hs.resolve_left id
    rw [bind_ok hr, bind_ok hr']
    exact hf a ctx limit s₁ hle
  | fail e s₁ =>
    rw [hr] at hs
    rw [bind_fail hr]
    rcases hs with hdeep | hr'
    · exact Or.inl hdeep
    · exact Or.inr (bind_fail hr' f')

theorem define_lifts (p : Procedure) : Lifts Expr (define p) (define p) := by
  intro ctx limit s hle
  cases habort : ctx.aborted with
  | true =>
    right
    rw [define_aborted habort]
    exact define_aborted habort
  | false =>
    rcases Nat.lt_or_ge ctx.calls.size ctx.limit with hdepth | hdeep
    · -- There is room for one more call, so there is under the larger limit.
      have hdepth' : ctx.calls.size < limit := Nat.lt_of_lt_of_le hdepth hle
      right
      simp [define, Context.withLimit, habort, Nat.not_le.mpr hdepth, Nat.not_le.mpr hdepth']
    · left
      rw [define_tooDeep habort hdeep]
      rfl

theorem callOf_lifts (name : String) {inputs inputs' : Procedure → Parse Expr}
    (h : ∀ p, Lifts Expr (inputs p) (inputs' p)) :
    Lifts Expr (callOf name inputs) (callOf name inputs') := by
  intro ctx limit s hle
  cases hget : s.registry.get? name with
  | none =>
    rw [callOf_none hget, callOf_none hget]
    exact Or.inr rfl
  | some p =>
    by_cases hbody : p.body = .definer
    · rw [callOf_definer hget hbody, callOf_definer hget hbody]
      exact define_lifts p ctx limit s hle
    · rw [callOf_inputs hget hbody, callOf_inputs hget hbody]
      exact h p ctx limit s hle

theorem calledOr_lifts {call call' : String → Parse Expr} {other other' : Parse Expr}
    (hcall : ∀ name, Lifts Expr (call name) (call' name)) (hother : Lifts Expr other other') :
    Lifts Expr (calledOr call other) (calledOr call' other') := by
  intro ctx limit s hle
  unfold calledOr
  split
  · next name hname => exact hcall name ctx limit _ hle
  · exact hother ctx limit s hle

theorem Lifts.congruence : Congruence Lifts fun _ => Lifts Expr where
  ok _ _ _ _ _ := Or.inr rfl
  fail _ _ _ _ _ _ := Or.inr rfl
  bind := Lifts.bind
  peek _ _ _ _ := Or.inr rfl
  skip _ _ _ _ := Or.inr rfl
  nextIs _ _ _ _ _ := Or.inr rfl
  takeOperator _ _ _ _ _ := Or.inr rfl
  next h := Lifts.bind (fun _ _ _ _ => Or.inr rfl) h
  later h := h
  call := callOf_lifts
  calledOr := calledOr_lifts

end Parse

/-! ## Hosts -/

/-- The exit says that calls were nested too deep. -/
def Exit.TooDeep : Exit → Prop
  | .fault f => f.cause.kind = .depthExceeded
  | .output _ | .stop => False

namespace HostAction

/-- Whatever the host does, it ends with a fault that says that calls were nested too deep. -/
def GivesUp : {handed : List Exit} → HostAction handed → Prop
  | _, finish _ => False
  | _, fail kind _ _ => kind = .depthExceeded
  | _, stop => False
  | _, output _ => False
  | _, passOn e _ => e.TooDeep
  | _, abort next => next.GivesUp
  | _, resume next => next.GivesUp
  | _, assign _ _ next => next.GivesUp
  | _, observe next => ∀ glimpse, (next glimpse).GivesUp
  | _, attempt _ _ next => ∀ result, (next result).GivesUp

/-- Once the host has been told that calls were nested too deep, it says so itself. -/
def HeedsLimit : {handed : List Exit} → HostAction handed → Prop
  | _, finish _ => True
  | _, fail _ _ _ => True
  | _, stop => True
  | _, output _ => True
  | _, passOn _ _ => True
  | _, abort next => next.HeedsLimit
  | _, resume next => next.HeedsLimit
  | _, assign _ _ next => next.HeedsLimit
  | _, observe next => ∀ glimpse, (next glimpse).HeedsLimit
  | _, attempt _ _ next =>
    (∀ result, (next result).HeedsLimit) ∧ ∀ e, e.TooDeep → (next (.error e)).GivesUp

end HostAction

/-! ## Running -/

/-- The same state under another limit. -/
def World.withLimit (w : World) (limit : Nat) : World :=
  { w with limit }

/-- The state is under this limit, and all of its hosts heed it. -/
structure World.Limited (limit : Nat) (w : World) : Prop where
  limit : w.limit = limit
  hosts : w.procedures.Hosts HostAction.HeedsLimit

namespace Outcome

/-- The same end, in the same state under another limit. -/
def withLimit (limit : Nat) : Outcome α → Outcome α
  | .done a w => .done a (w.withLimit limit)
  | .exit e w => .exit e (w.withLimit limit)
  | .exhausted => .exhausted

/-- The run was cut off, by the fuel or by the limit. -/
def CutOff : Outcome α → Prop
  | .done _ _ => False
  | .exit e _ => e.TooDeep
  | .exhausted => True

theorem CutOff.cases {o : Outcome α} (h : o.CutOff) :
    o = .exhausted ∨ ∃ f w, o = .exit (.fault f) w ∧ f.cause.kind = .depthExceeded := by
  cases o with
  | done a w => exact h.elim
  | exhausted => exact Or.inl rfl
  | exit e w =>
    cases e with
    | output a => exact h.elim
    | stop => exact h.elim
    | fault f => exact Or.inr ⟨f, w, rfl, h⟩

/-- The outcomes of a run that began under `limit` and of one that began in the same state under
`limit'`: if the first is cut off it says nothing about the second, and otherwise the second is the
same. -/
inductive Lifts (limit limit' : Nat) : Outcome α → Outcome α → Prop where
  | cutOff {o o' : Outcome α} : o.CutOff → Lifts limit limit' o o'
  | same {o : Outcome α} : o.Ends (World.Limited limit) → Lifts limit limit' o (o.withLimit limit')

variable {limit limit' : Nat}

theorem Lifts.exhausted (o : Outcome α) : Lifts limit limit' .exhausted o :=
  .cutOff trivial

theorem CutOff.closeCall {o : Outcome α} (h : o.CutOff) : o.closeCall.CutOff := by
  rcases h.cases with rfl | ⟨f, w, rfl, hkind⟩
  · exact trivial
  · -- Recording the running procedures does not change the cause.
    change (f.record w.calls).cause.kind = .depthExceeded
    unfold Fault.record
    split
    · exact hkind
    · exact hkind

theorem CutOff.closeFrame {o : Outcome Unit} (h : o.CutOff) : o.closeFrame.CutOff := by
  rcases h.cases with rfl | ⟨f, w, rfl, hkind⟩
  · exact trivial
  · exact hkind

theorem Lifts.closeCall {o o' : Outcome α} (h : Lifts limit limit' o o') :
    Lifts limit limit' o.closeCall o'.closeCall := by
  cases h with
  | cutOff hcut => exact .cutOff hcut.closeCall
  | same hends =>
    have hclosed : (o.withLimit limit').closeCall = o.closeCall.withLimit limit' := by
      cases o with
      | exit e w => cases e <;> rfl
      | _ => rfl
    rw [hclosed]
    exact .same (hends.closeCall fun _ h => ⟨h.limit, h.hosts⟩)

theorem Lifts.closeFrame {o o' : Outcome Unit} (h : Lifts limit limit' o o') :
    Lifts limit limit' o.closeFrame o'.closeFrame := by
  cases h with
  | cutOff hcut => exact .cutOff hcut.closeFrame
  | same hends =>
    have hclosed : (o.withLimit limit').closeFrame = o.closeFrame.withLimit limit' := by
      cases o with
      | exit e w => cases e <;> rfl
      | _ => rfl
    rw [hclosed]
    exact .same (hends.closeFrame fun _ h => ⟨h.limit, h.hosts⟩)

theorem Lifts.restore {o o' : Outcome Unit} (h : Lifts limit limit' o o') (n : Nat) :
    Lifts limit limit' (Act.restore n o) (Act.restore n o') := by
  cases h with
  | cutOff hcut =>
    refine .cutOff ?_
    cases o with
    | done a w => exact hcut
    | exit e w => exact hcut
    | exhausted => exact hcut
  | same hends =>
    have hrestored : Act.restore n (o.withLimit limit') = (Act.restore n o).withLimit limit' := by
      cases o <;> rfl
    rw [hrestored]
    exact .same (Act.Ends.restore hends n fun _ h => ⟨h.limit, h.hosts⟩)

end Outcome

namespace Run

variable {limit limit' : Nat}

/-- Unless it is cut off, the first run ends under `limit` as the second does under `limit'`. -/
def Lifts (limit limit' : Nat) (α : Type) (m m' : Run α) : Prop :=
  ∀ w, w.Limited limit → Outcome.Lifts limit limit' (m w) (m' (w.withLimit limit'))

theorem Lifts.done {m : Run α} {a : α} {change : World → World}
    (hm : ∀ w, m w = .done a (change w))
    (hlimit : ∀ w, change (w.withLimit limit') = (change w).withLimit limit')
    (hkept : ∀ w, (change w).limit = w.limit)
    (hprocedures : ∀ w, (change w).procedures = w.procedures) : Lifts limit limit' α m m := by
  intro w hw
  rw [hm, hm, hlimit]
  exact .same (o := .done a (change w)) ⟨(hkept w).trans hw.limit, hprocedures w ▸ hw.hosts⟩

theorem Lifts.exit (e : Exit) : Lifts limit limit' α (Run.exit e) (Run.exit e) :=
  fun w hw => .same (o := .exit e w) hw

/-- A run that goes on after an exit, but not after one that says that calls were nested too
deep. -/
theorem Lifts.attempt {m m' : Run α} {f f' : Except Exit α → Run β}
    (hm : Lifts limit limit' α m m') (hf : ∀ x, Lifts limit limit' β (f x) (f' x))
    (hdeep : ∀ e, e.TooDeep → ∀ w, (f (.error e) w).CutOff) :
    Lifts limit limit' β (Run.attempt m f) (Run.attempt m' f') := by
  intro w hw
  have hs := hm w hw
  generalize hr' : m' (w.withLimit limit') = o' at hs
  cases hr : m w with
  | exhausted =>
    rw [attempt_exhausted hr]
    exact .exhausted _
  | exit e w₁ =>
    rw [hr] at hs
    rw [attempt_exit hr]
    cases hs with
    | cutOff htooDeep => exact .cutOff (hdeep e htooDeep w₁)
    | same hends =>
      rw [attempt_exit hr']
      exact hf (.error e) w₁ hends
  | done a w₁ =>
    rw [hr] at hs
    cases hs with
    | cutOff hfalse => exact absurd hfalse id
    | same hends =>
      rw [attempt_done hr, attempt_done hr']
      exact hf (.ok a) w₁ hends

theorem Lifts.bind {m m' : Run α} {f f' : α → Run β} (hm : Lifts limit limit' α m m')
    (hf : ∀ a, Lifts limit limit' β (f a) (f' a)) :
    Lifts limit limit' β (m >>= f) (m' >>= f') := by
  rw [bind_eq_attempt, bind_eq_attempt]
  refine hm.attempt (fun x => ?_) fun e he w => he
  cases x with
  | ok a => exact hf a
  | error e => exact .exit e

theorem Lifts.heedAbort : Lifts limit limit' Unit Run.heedAbort Run.heedAbort := by
  intro w hw
  cases habort : w.aborted with
  | true =>
    rw [heedAbort_stop habort, heedAbort_stop (w := w.withLimit limit') habort]
    exact .same (o := .exit _ w) hw
  | false =>
    rw [heedAbort_go habort, heedAbort_go (w := w.withLimit limit') habort]
    exact .same (o := .done () w) hw

theorem Lifts.parse (hle : limit ≤ limit') (atoms : List Atom)
    {k k' : Expr × List Atom → Run α}
    (hk : ∀ e rest, e.Hosts HostAction.HeedsLimit →
      Lifts limit limit' α (k (e, rest)) (k' (e, rest))) :
    Lifts limit limit' α (Engine.parse atoms >>= k) (Engine.parse atoms >>= k') := by
  intro w hw
  have hread : (parseExpr w.parseContext ⟨atoms, w.procedures⟩).TooDeep ∨
      parseExpr (w.withLimit limit').parseContext ⟨atoms, (w.withLimit limit').procedures⟩
        = parseExpr w.parseContext ⟨atoms, w.procedures⟩ :=
    Parse.Lifts.congruence.expression atoms.length w.parseContext limit' ⟨atoms, w.procedures⟩
      (hw.limit ▸ hle : w.limit ≤ limit')
  cases hr : parseExpr w.parseContext ⟨atoms, w.procedures⟩ with
  | ok e s =>
    obtain ⟨hregistry, he⟩ := Registry.Hosts.supports.parseExpr_ok hw.hosts hr
    rw [hr] at hread
    rw [bind_done (Engine.parse_ok hr), bind_done (Engine.parse_ok (hread.resolve_left id))]
    exact hk e s.atoms he { w with procedures := s.registry } ⟨hw.limit, hregistry⟩
  | fail f s =>
    obtain ⟨hregistry, -⟩ := Registry.Hosts.supports.parseExpr_fail hw.hosts hr
    rw [hr] at hread
    rw [bind_exit (Engine.parse_fail hr)]
    rcases hread with hdeep | hsame
    · exact .cutOff hdeep
    · rw [bind_exit (Engine.parse_fail hsame)]
      exact .same (o := .exit (.fault f) { w with procedures := s.registry }) ⟨hw.limit, hregistry⟩

theorem Lifts.enter (hle : limit ≤ limit') (name : String) :
    Lifts limit limit' Unit (enter name) (enter name) := by
  intro w hw
  cases habort : w.aborted with
  | true =>
    rw [enter_aborted habort, enter_aborted (w := w.withLimit limit') habort]
    exact .same (o := .exit _ w) hw
  | false =>
    rcases Nat.lt_or_ge w.calls.size w.limit with hdepth | hdeep
    · have hdepth' : w.calls.size < limit' := Nat.lt_of_lt_of_le hdepth (hw.limit ▸ hle)
      rw [enter_done habort hdepth, enter_done (w := w.withLimit limit') habort hdepth']
      exact .same (o := .done () { w with calls := w.calls.push name }) ⟨hw.limit, hw.hosts⟩
    · rw [enter_tooDeep habort hdeep]
      exact .cutOff rfl

theorem Lifts.compatible (hle : limit ≤ limit') :
    Compatible false (Expr.Hosts HostAction.HeedsLimit)
      fun α m => Lifts limit limit' α (m false) (m true) where
  done _ := .done (fun _ => rfl) (fun _ => rfl) (fun _ => rfl) fun _ => rfl
  bind hm hf := hm.bind hf
  fail cause _ := .exit (.fault { cause })
  stop := .exit .stop
  output a := .exit (.output a)
  heedAbort := Lifts.heedAbort
  look view hview k hk w hw := by
    have hsame : view (w.withLimit limit') = view w := hview w limit' w.lines
    change Outcome.Lifts limit limit' (k false (view w) w)
      (k true (view (w.withLimit limit')) (w.withLimit limit'))
    rw [hsame]
    exact hk (view w) w hw
  onTurtle _ := .done (fun _ => rfl) (fun _ => rfl) (fun _ => rfl) fun _ => rfl
  assign _ _ := .done (fun _ => rfl) (fun _ => rfl) (fun _ => rfl) fun _ => rfl
  bindLocal _ _ := .done (fun _ => rfl) (fun _ => rfl) (fun _ => rfl) fun _ => rfl
  declareLocal _ := .done (fun _ => rfl) (fun _ => rfl) (fun _ => rfl) fun _ => rfl
  setTest _ := .done (fun _ => rfl) (fun _ => rfl) (fun _ => rfl) fun _ => rfl
  write _ := .done (fun _ => rfl) (fun _ => rfl) (fun _ => rfl) fun _ => rfl
  setAborted _ := .done (fun _ => rfl) (fun _ => rfl) (fun _ => rfl) fun _ => rfl
  counted i _ hm w hw := by
    simp only [Act.counted_apply]
    exact (hm (Act.withRepcount i w) ⟨hw.limit, hw.hosts⟩).restore w.repcount
  parse atoms _ hk := Lifts.parse hle atoms hk
  negate | .negate h => h
  binary | .binary _ hleft hright => ⟨hleft, hright⟩
  inputs | .call _ hinputs => hinputs
  supplied _ := Or.inr fun _ me => .exit (.fault { cause := .inputMissing me })
  loops _ _ _ _ hleast w _ := hleast w ▸ .exhausted _

end Run

/-! ## Hosts at work -/

/-- A host that gives up is cut off. -/
theorem HostAction.GivesUp.cutOff {eng : Engine} {handed : List Exit} {act : HostAction handed}
    (h : act.GivesUp) : ∀ w, (act.perform eng w).CutOff := by
  induction act with
  | finish v => exact h.elim
  | fail kind message stack => exact fun _ => h
  | stop => exact h.elim
  | output a => exact h.elim
  | passOn e hmem => exact fun _ => h
  | abort next ih => exact fun w => ih h { w with aborted := true }
  | resume next ih => exact fun w => ih h { w with aborted := false }
  | assign name a next ih => exact fun w => ih h (w.assign name a)
  | observe next ih => exact fun w => ih w.glimpse (h w.glimpse) w
  | attempt code keep next ih =>
    intro w
    change (Run.attempt (eng.execute code keep) _ w).CutOff
    cases hr : eng.execute code keep w with
    | done v w₁ => rw [Run.attempt_done hr]; exact ih (.ok v) (h (.ok v)) w₁
    | exit e w₁ => rw [Run.attempt_exit hr]; exact ih (.error e) (h (.error e)) w₁
    | exhausted => rw [Run.attempt_exhausted hr]; exact trivial

namespace Run

variable {limit limit' : Nat}

theorem Lifts.hostAction {eng eng' : Engine}
    (hexecute : ∀ code keep, Lifts limit limit' _ (eng.execute code keep) (eng'.execute code keep))
    {handed : List Exit} (act : HostAction handed) (hact : act.HeedsLimit) :
    Lifts limit limit' _ (act.perform eng) (act.perform eng') := by
  induction act with
  | finish v => exact fun w hw => .same (o := .done v w) hw
  | fail kind message stack => exact .exit _
  | stop => exact .exit .stop
  | output a => exact .exit (.output a)
  | passOn e hmem => exact .exit e
  | abort next ih =>
    exact fun w hw => ih hact { w with aborted := true } ⟨hw.limit, hw.hosts⟩
  | resume next ih =>
    exact fun w hw => ih hact { w with aborted := false } ⟨hw.limit, hw.hosts⟩
  | assign name a next ih => exact fun w hw => ih hact (w.assign name a) ⟨hw.limit, hw.hosts⟩
  | observe next ih => exact fun w hw => ih w.glimpse (hact w.glimpse) w hw
  | attempt code keep next ih =>
    exact (hexecute code keep).attempt (fun x => ih x (hact.1 x)) fun e he => (hact.2 e he).cutOff

theorem Lifts.uniform (hle : limit ≤ limit') :
    Compatible.Uniform false (Expr.Hosts HostAction.HeedsLimit)
      fun α m => Lifts limit limit' α (m false) (m true) where
  cutsOff hleast w _ := hleast w ▸ .exhausted _
  frames hm w hw := (hm { w with frames := w.frames.push } ⟨hw.limit, hw.hosts⟩).closeFrame
  hosts
    | _, _, act, _, .call hp _, hbody, hexecute, args =>
      Lifts.hostAction hexecute (act args) (hp act hbody args)
  calls name _ hm := (Lifts.enter hle name).bind fun _ w hw => (hm w hw).closeCall

end Run

/-- Under a larger limit a job finishes as it does under a smaller one, with the same value, exit or
fault and in the same state but for the limit itself, unless under the smaller limit it is cut off
for calls that are nested too deep. This is so if all hosts give up that are told of such calls. -/
theorem limit_only_cuts_off {job : Job} {w : World} {limit limit' : Nat} (hle : limit ≤ limit')
    (hjob : job.Sound (Expr.Hosts HostAction.HeedsLimit))
    (hhosts : w.procedures.Hosts HostAction.HeedsLimit)
    {o : Outcome (Option Atom)} (h : Finishes job (w.withLimit limit) o)
    (hdepth : ∀ f w', o = .exit (.fault f) w' → f.cause.kind ≠ .depthExceeded) :
    Finishes job (w.withLimit limit') (o.withLimit limit') := by
  obtain ⟨hne, fuel, hfuel⟩ := h
  have hlifts := (Run.Lifts.compatible hle).interpret (Run.Lifts.uniform hle) fuel (fun _ => fuel)
    rfl (fun _ => Nat.le_refl fuel) hjob (w.withLimit limit) ⟨rfl, hhosts⟩
  dsimp only at hlifts
  rw [show (w.withLimit limit).withLimit limit' = w.withLimit limit' from rfl, hfuel] at hlifts
  generalize hfuel' : interpret fuel job (w.withLimit limit') = o' at hlifts
  cases hlifts with
  | cutOff hcut =>
    rcases hcut.cases with rfl | ⟨f, w', rfl, hkind⟩
    · exact absurd rfl hne
    · exact absurd hkind (hdepth f w' rfl)
  | same _ =>
    refine ⟨?_, fuel, hfuel'⟩
    cases o with
    | done a w₁ => simp [Outcome.withLimit]
    | exit e w₁ => simp [Outcome.withLimit]
    | exhausted => exact absurd rfl hne

/-- How many items the list has that a run gives. -/
def Outcome.count? : Outcome (Option Atom) → Option Nat
  | .done v _ => (v.bind Atom.list?).map List.length
  | .exit _ _ => none
  | .exhausted => none

theorem Outcome.count?_withLimit (o : Outcome (Option Atom)) (limit : Nat) :
    (o.withLimit limit).count? = o.count? := by
  cases o with
  | done v w => rfl
  | exit e w => rfl
  | exhausted => rfl

theorem Finishes.exists_of_count? (fuel : Nat) (job : Job) (w : World) (n : Nat)
    (h : (interpret fuel job w).count? = some n) :
    ∃ o, Finishes job w o ∧ (∀ e w', o ≠ .exit e w') ∧ o.count? = some n := by
  refine ⟨interpret fuel job w, ⟨fun hcut => ?_, fuel, rfl⟩, fun e w' hexit => ?_, h⟩
  · rw [hcut] at h
    cases h
  · rw [hexit] at h
    cases h

/-- `H` is a primitive of a host that runs `F`, passes on a fault and gives a list otherwise. A
limit of two has just room for both, and they run the same under a limit of nine. -/
theorem limit_only_cuts_off_call : ∃ (w : World) (o : Outcome (Option Atom)),
    w.procedures.Hosts HostAction.HeedsLimit ∧
    w.procedures.get? "h" = some ⟨"H", .host fun _ =>
      .execute [.word "f"] false fun _ => .finish (some (.list [])), .fixed 0⟩ ∧
    Finishes (.execute [.word "h"] true) (w.withLimit 2) o ∧ o.count? = some 0 ∧
    Finishes (.execute [.word "h"] true) (w.withLimit 9) (o.withLimit 9) := by
  obtain ⟨w, hw⟩ : ∃ w : World, w = { procedures := ⟨[
      ("f", ⟨"F", .defined ⟨[], [], none, 0, []⟩, .fixed 0⟩),
      ("h", ⟨"H", .host fun _ =>
        .execute [.word "f"] false fun _ => .finish (some (.list [])), .fixed 0⟩)]⟩ } := ⟨_, rfl⟩
  have hhosts : w.procedures.Hosts HostAction.HeedsLimit := by
    rw [hw]
    refine .of_entries (List.forall_mem_cons.mpr ⟨?_, List.forall_mem_singleton.mpr ?_⟩)
    · exact fun _ hbody => nomatch hbody
    · rintro act ⟨⟩ args
      refine ⟨fun result => ?_, fun e he => he⟩
      cases result with
      | ok v => exact trivial
      | error e => exact trivial
  obtain ⟨o, hcall, hexit, hcount⟩ := Finishes.exists_of_count? 8 (.execute [.word "h"] true)
    (w.withLimit 2) 0 (by rw [hw]; decide +kernel)
  refine ⟨w, o, hhosts, by rw [hw]; rfl, hcall, hcount, ?_⟩
  refine limit_only_cuts_off (by decide) ?_ hhosts hcall fun f w' hfault => ?_
  · exact trivial
  · exact absurd hfault (hexit _ _)

/-- Runs instructions, and gives the procedures that are recorded if they end early. -/
def HostAction.reporting (code : List Atom) : HostAction :=
  .attempt code false fun
    | .ok v => .finish v
    | .error e => .finish (some (.list (e.toFault.stack.map .word)))

/-- A host that goes on may tell what the limit is: `H` runs `F`, which calls itself until there is
no more room, and gives the procedures that are recorded in the fault. Those are three under a limit
of three and four under a limit of four. -/
theorem limit_shows_in_caught_fault :
    ∃ (w : World) (code : List Atom) (keep : Bool) (limit limit' : Nat)
      (o : Outcome (Option Atom)), limit ≤ limit' ∧
      Finishes (.execute code keep) (w.withLimit limit) o ∧
      (∀ f w', o = .exit (.fault f) w' → f.cause.kind ≠ .depthExceeded) ∧
      ¬ Finishes (.execute code keep) (w.withLimit limit') (o.withLimit limit') := by
  obtain ⟨w, hw⟩ : ∃ w : World, w = { procedures := ⟨[
      ("f", ⟨"F", .defined ⟨[], [], none, 0, [.word "f"]⟩, .fixed 0⟩),
      ("h", ⟨"H", .host fun _ => .reporting [.word "f"], .fixed 0⟩)]⟩ } := ⟨_, rfl⟩
  obtain ⟨o, hthree, hexit, hcount⟩ := Finishes.exists_of_count? 20 (.execute [.word "h"] true)
    (w.withLimit 3) 3 (by rw [hw]; decide +kernel)
  obtain ⟨o', hfour, -, hcount'⟩ := Finishes.exists_of_count? 20 (.execute [.word "h"] true)
    (w.withLimit 4) 4 (by rw [hw]; decide +kernel)
  refine ⟨w, [.word "h"], true, 3, 4, o, by decide, hthree, fun f w' hfault => ?_, fun hsame => ?_⟩
  · exact absurd hfault (hexit _ _)
  · rw [← hsame.unique hfour, Outcome.count?_withLimit, hcount] at hcount'
    cases hcount'

end TurtleLogo
