import TurtleLogo.Proofs.Parse.Arity
import TurtleLogo.Proofs.Run.Balance
import TurtleLogo.Proofs.Run.Isolation

set_option autoImplicit false

/-! # Inputs and their values

A call gives its values to the inputs of the definition by position: required inputs first, then
optional ones, then the rest input, which takes what is left as a list. For an optional input that
no value is left for, the default is evaluated in the half-built frame, which may run any program.

`Definition.Binds` describes the course of this: the supplied values are bound, then each missing
default is evaluated and bound, in order. It is exactly what binding does (`bindAll_eq_done_iff`),
and unless a default meddles with the inputs, each input holds its value in the end
(`Definition.Binds.holds`). -/

namespace TurtleLogo

/-! ## Variables of the innermost frame -/

namespace World

/-- Binds a variable of the innermost frame. -/
def bindInput (w : World) (name : String) (a : Atom) : World :=
  { w with frames := w.frames.bindLocal name a }

/-- Binds variables of the innermost frame, one after the other. -/
def bindEach (w : World) (inputs : List (String × Atom)) : World :=
  inputs.foldl (fun w input => w.bindInput input.1 input.2) w

/-- The innermost frame has a variable of this name with this value. -/
def Holds (w : World) (input : String × Atom) : Prop :=
  w.frames.innermost.cells.get? input.1 = some (some input.2)

variable {w : World} {input : String × Atom} {name : String} {a : Atom}

theorem get?_bindInput (w : World) (name other : String) (a : Atom) :
    (w.bindInput name a).frames.innermost.cells.get? other
      = if foldName other = foldName name then some (some a)
        else w.frames.innermost.cells.get? other := by
  simp only [bindInput, Frames.bindLocal, Frames.innermost_modifyInnermost, Frame.bind,
    NameTable.get?_insert]

theorem holds_bindInput (w : World) (name : String) (a : Atom) :
    (w.bindInput name a).Holds (name, a) := by
  simp [Holds, get?_bindInput]

theorem Holds.bindInput (h : w.Holds input) (hne : foldName input.1 ≠ foldName name) :
    (w.bindInput name a).Holds input := by
  simpa [Holds, get?_bindInput, hne] using h

/-- The folded name of an input. -/
def inputKey (input : String × Atom) : String :=
  foldName input.1

theorem inputKey_ne_of_nodup {held more : List (String × Atom)} {next : String × Atom}
    (h : ((held ++ next :: more).map inputKey).Nodup) :
    ∀ input ∈ held, inputKey input ≠ inputKey next := by
  rw [List.map_append, List.nodup_append] at h
  intro input hinput
  exact h.2.2 _ (List.mem_map_of_mem hinput) _ (by simp)

/-- A variable that is bound under a new name is held with those that were held before. -/
theorem holds_append_bindInput {held more : List (String × Atom)} {next : String × Atom}
    (hheld : ∀ input ∈ held, w.Holds input)
    (hnodup : ((held ++ next :: more).map inputKey).Nodup) :
    ∀ input ∈ held ++ [next], (w.bindInput next.1 next.2).Holds input := by
  intro input hinput
  rcases List.mem_append.mp hinput with hinput | hinput
  · exact (hheld input hinput).bindInput (inputKey_ne_of_nodup hnodup input hinput)
  · obtain rfl := List.mem_singleton.mp hinput
    exact holds_bindInput w _ _

theorem holds_bindEach {held inputs : List (String × Atom)} (hheld : ∀ input ∈ held, w.Holds input)
    (hnodup : ((held ++ inputs).map inputKey).Nodup) :
    ∀ input ∈ held ++ inputs, (w.bindEach inputs).Holds input := by
  induction inputs generalizing w held with
  | nil => simpa [bindEach] using hheld
  | cons next inputs ih =>
    have hnext := holds_append_bindInput hheld hnodup
    rw [List.append_cons] at hnodup ⊢
    exact ih hnext hnodup

end World

/-! ## Defaults -/

/-- The evaluation of the default of an input, from the state in which it starts to the one in which
it ends with a value. -/
structure Evaluation where
  name : String
  default : List Atom
  before : World
  value : Atom
  after : World

namespace Evaluation

/-- The input with its default. -/
def input (e : Evaluation) : String × List Atom :=
  (e.name, e.default)

/-- The input with the value of its default. -/
def result (e : Evaluation) : String × Atom :=
  (e.name, e.value)

/-- The evaluation leaves the values of these variables alone. -/
def Spares (e : Evaluation) (names : List String) : Prop :=
  ∀ name ∈ names, ∀ a, e.before.Holds (name, a) → e.after.Holds (name, a)

end Evaluation

/-- Evaluations one after the other, from the state before the first to the one after the last. The
value of each is bound before the next begins. -/
inductive Course (eng : Engine) : World → List Evaluation → World → Prop where
  | nil (w : World) : Course eng w [] w
  | cons {e : Evaluation} {es : List Evaluation} {w w' : World} : e.before = w →
    defaultValue eng e.name e.default w = .done e.value e.after →
    Course eng (e.after.bindInput e.name e.value) es w' → Course eng w (e :: es) w'

/-- Each evaluation starts in a state that holds the inputs before its own. -/
theorem Course.holds {eng : Engine} {w w' : World} {es : List Evaluation} {names : List String}
    (h : Course eng w es w') {held : List (String × Atom)} (hheld : ∀ input ∈ held, w.Holds input)
    (hnames : ∀ input ∈ held ++ es.map Evaluation.result, input.1 ∈ names)
    (hspares : ∀ e ∈ es, e.Spares names)
    (hnodup : ((held ++ es.map Evaluation.result).map World.inputKey).Nodup) :
    (∀ front e back, es = front ++ e :: back →
      ∀ input ∈ held ++ front.map Evaluation.result, e.before.Holds input) ∧
    ∀ input ∈ held ++ es.map Evaluation.result, w'.Holds input := by
  induction h generalizing held with
  | nil w => exact ⟨by simp, by simpa using hheld⟩
  | @cons e es w w' hbefore hvalue hcourse ih =>
    subst hbefore
    have hafter : ∀ input ∈ held, e.after.Holds input := by
      intro input hinput
      exact hspares e (by simp) input.1 (hnames input (by simp [hinput])) _ (hheld input hinput)
    have hnext : ∀ input ∈ held ++ [e.result], (e.after.bindInput e.name e.value).Holds input :=
      World.holds_append_bindInput hafter hnodup
    rw [List.map_cons, List.append_cons] at hnames hnodup ⊢
    obtain ⟨hfront, hend⟩ := ih hnext hnames (fun e' he' => hspares e' (by simp [he'])) hnodup
    refine ⟨?_, hend⟩
    intro front e' back hes
    cases front with
    | nil =>
      obtain ⟨rfl, -⟩ := List.cons.inj hes
      simpa using hheld
    | cons first front =>
      obtain ⟨rfl, htail⟩ := List.cons.inj hes
      rw [List.map_cons, List.append_cons]
      exact hfront front e' back htail

/-! ## The course of binding -/

namespace Definition

/-- The inputs that take one value each, in order. -/
def positional (d : Definition) : List String :=
  d.inputs ++ d.optional.map Prod.fst

/-- The names of all inputs. -/
def parameters (d : Definition) : List String :=
  d.positional ++ d.rest.toList

/-- The inputs that the values of a call go to by position. -/
def supplied (d : Definition) (args : List Atom) : List (String × Atom) :=
  d.positional.zip args

/-- The values of a call that no position is left for. -/
def extra (d : Definition) (args : List Atom) : List Atom :=
  args.drop d.positional.length

/-- The rest input with its value, if there is one. -/
def restInput (d : Definition) (args : List Atom) : List (String × Atom) :=
  (d.rest.map fun name => (name, .list (d.extra args))).toList

/-- How the inputs are bound: the values of the call by position, then the defaults that are needed,
one after the other, then the rest input. -/
structure Binds (eng : Engine) (d : Definition) (args : List Atom) (w : World)
    (es : List Evaluation) (w' : World) : Prop where
  omitted : es.map Evaluation.input = d.optional.drop (args.length - d.inputs.length)
  course : ∃ w₁, Course eng (w.bindEach (d.supplied args)) es w₁ ∧
    w' = w₁.bindEach (d.restInput args)

end Definition

variable {eng : Engine} {d : Definition} {args left : List Atom} {w w' : World}

theorem World.bindEach_append (w : World) (inputs more : List (String × Atom)) :
    w.bindEach (inputs ++ more) = (w.bindEach inputs).bindEach more :=
  List.foldl_append

theorem bindInputs_eq {names : List String} (h : names.length ≤ args.length) (w : World) :
    bindInputs names args w = .done (args.drop names.length) (w.bindEach (names.zip args)) := by
  induction names generalizing args w with
  | nil => rfl
  | cons name names ih =>
    cases args with
    | nil => simp at h
    | cons a args => exact ih (by simpa using h) (w.bindInput name a)

theorem bindOptional_eq_done_iff {inputs : List (String × List Atom)} :
    bindOptional eng inputs args w = .done left w' ↔
      left = args.drop inputs.length ∧ ∃ es : List Evaluation,
        es.map Evaluation.input = inputs.drop args.length ∧
          Course eng (w.bindEach ((inputs.map Prod.fst).zip args)) es w' := by
  induction inputs generalizing args w with
  | nil =>
    simp only [bindOptional, List.map_nil, List.zip_nil_left, List.drop_nil, List.map_eq_nil_iff]
    constructor
    · intro h
      obtain ⟨rfl, rfl⟩ := Outcome.done.inj h
      exact ⟨rfl, [], rfl, .nil w⟩
    · rintro ⟨rfl, es, rfl, hcourse⟩
      cases hcourse
      rfl
  | cons input inputs ih =>
    obtain ⟨name, default⟩ := input
    cases args with
    | cons a args =>
      have hstep : bindOptional eng ((name, default) :: inputs) (a :: args) w
          = bindOptional eng inputs args (w.bindInput name a) := rfl
      rw [hstep, ih]
      simp [World.bindEach]
    | nil =>
      have hmore : ∀ w₁, bindOptional eng inputs [] w₁ = .done left w' ↔
          left = [] ∧ ∃ es : List Evaluation, es.map Evaluation.input = inputs ∧
            Course eng w₁ es w' := by
        intro w₁
        simpa [World.bindEach] using (ih : bindOptional eng inputs [] w₁ = .done left w' ↔ _)
      constructor
      · intro h
        obtain ⟨a, w₁, hvalue, hrest⟩ := Run.bind_eq_done.mp h
        obtain ⟨rfl, es, rfl, hcourse⟩ := (hmore (w₁.bindInput name a)).mp hrest
        exact ⟨rfl, ⟨name, default, w, a, w₁⟩ :: es, rfl, .cons rfl hvalue hcourse⟩
      · rintro ⟨rfl, es, hes, hcourse⟩
        cases hcourse with
        | nil => cases hes
        | @cons e es _ _ hbefore hvalue hcourse =>
          obtain ⟨hinput, htail⟩ := List.cons.inj hes
          obtain ⟨rfl, rfl⟩ := Prod.mk.inj hinput
          exact (Run.bind_done hvalue _).trans ((hmore _).mpr ⟨rfl, es, htail, hcourse⟩)

theorem bindRest_eq (rest : Option String) (args : List Atom) (w : World) :
    bindRest rest args w
      = .done () (w.bindEach (rest.map fun name => (name, .list args)).toList) := by
  cases rest <;> rfl

namespace Definition

theorem zip_append_left {names more : List String} (h : names.length ≤ args.length) :
    (names ++ more).zip args = names.zip args ++ more.zip (args.drop names.length) := by
  induction names generalizing args with
  | nil => rfl
  | cons name names ih =>
    cases args with
    | nil => simp at h
    | cons a args => simpa using ih (by simpa using h)

theorem map_fst_supplied : (d.supplied args).map Prod.fst = d.positional.take args.length := by
  rw [supplied, List.zip_eq_zip_take_min, List.map_fst_zip (by simp), Nat.min_comm,
    ← List.take_eq_take_min]

theorem map_snd_supplied : (d.supplied args).map Prod.snd = args.take d.positional.length := by
  rw [supplied, List.zip_eq_zip_take_min, List.map_snd_zip (by simp), ← List.take_eq_take_min]

/-- The inputs that get a value, supplied or by default, are all that take one, in order. -/
theorem Binds.names {es : List Evaluation} (h : d.Binds eng args w es w')
    (hle : d.inputs.length ≤ args.length) :
    (d.supplied args ++ es.map Evaluation.result).map Prod.fst = d.positional := by
  have homitted : (es.map Evaluation.result).map Prod.fst = d.positional.drop args.length := by
    calc (es.map Evaluation.result).map Prod.fst
        = (es.map Evaluation.input).map Prod.fst := by simp [Evaluation.result, Evaluation.input]
      _ = (d.optional.map Prod.fst).drop (args.length - d.inputs.length) := by
        rw [h.omitted, List.map_drop]
      _ = d.positional.drop args.length := by
        simp [positional, List.drop_append, List.drop_eq_nil_of_le hle]
  rw [List.map_append, map_fst_supplied, homitted, List.take_append_drop]

/-- In the end each input holds its value, and each default was evaluated in a state that held the
inputs before its own. -/
theorem Binds.holds {es : List Evaluation} (h : d.Binds eng args w es w')
    (hle : d.inputs.length ≤ args.length) (hnodup : (d.parameters.map foldName).Nodup)
    (hspares : ∀ e ∈ es, e.Spares d.parameters) :
    (∀ front e back, es = front ++ e :: back →
      ∀ input ∈ d.supplied args ++ front.map Evaluation.result, e.before.Holds input) ∧
    ∀ input ∈ d.supplied args ++ es.map Evaluation.result ++ d.restInput args, w'.Holds input := by
  obtain ⟨w₁, hcourse, rfl⟩ := h.course
  have hnames := h.names hle
  have hall : ((d.supplied args ++ es.map Evaluation.result ++ d.restInput args).map Prod.fst)
      = d.parameters := by
    rw [List.map_append, hnames, parameters, restInput]
    cases d.rest <;> rfl
  have hkeys : ((d.supplied args ++ es.map Evaluation.result ++ d.restInput args).map
      World.inputKey).Nodup := by
    have hmap : ∀ inputs : List (String × Atom),
        inputs.map World.inputKey = (inputs.map Prod.fst).map foldName := by
      intro inputs
      simp [World.inputKey]
    rw [hmap, hall]
    exact hnodup
  have hpositional : ((d.supplied args ++ es.map Evaluation.result).map World.inputKey).Nodup := by
    rw [List.map_append] at hkeys
    exact (List.nodup_append.mp hkeys).1
  have hsupplied : ∀ input ∈ d.supplied args, (w.bindEach (d.supplied args)).Holds input := by
    have hnone : ∀ input ∈ ([] : List (String × Atom)), w.Holds input := by simp
    rw [List.map_append] at hpositional
    exact World.holds_bindEach hnone (List.nodup_append.mp hpositional).1
  have hmem : ∀ input ∈ d.supplied args ++ es.map Evaluation.result, input.1 ∈ d.parameters := by
    intro input hinput
    rw [← hall]
    exact List.mem_map_of_mem (List.mem_append_left _ hinput)
  obtain ⟨hfront, hend⟩ := hcourse.holds hsupplied hmem hspares hpositional
  exact ⟨hfront, World.holds_bindEach hend hkeys⟩

end Definition

/-- Required inputs are bound first, and they take their values from the front. -/
theorem bindAll_eq (h : d.inputs.length ≤ args.length) (w : World) :
    bindAll eng d args w
      = (bindOptional eng d.optional (args.drop d.inputs.length) >>= bindRest d.rest)
          (w.bindEach (d.inputs.zip args)) :=
  Run.bind_done (bindInputs_eq h w) _

/-- Binding is done exactly if the defaults that are needed have values, and then this is its
course. -/
theorem bindAll_eq_done_iff (h : d.inputs.length ≤ args.length) :
    bindAll eng d args w = .done () w' ↔ ∃ es, d.Binds eng args w es w' := by
  have hextra : (args.drop d.inputs.length).drop d.optional.length = d.extra args := by
    simp [Definition.extra, Definition.positional, List.drop_drop]
  have hsupplied : w.bindEach (d.supplied args) = (w.bindEach (d.inputs.zip args)).bindEach
      ((d.optional.map Prod.fst).zip (args.drop d.inputs.length)) := by
    rw [← World.bindEach_append, Definition.supplied, Definition.positional,
      Definition.zip_append_left h]
  rw [bindAll_eq h, Run.bind_eq_done]
  constructor
  · rintro ⟨left, w₁, hoptional, hrest⟩
    obtain ⟨rfl, es, hes, hcourse⟩ := bindOptional_eq_done_iff.mp hoptional
    rw [hextra, bindRest_eq] at hrest
    rw [← hsupplied] at hcourse
    rw [List.length_drop] at hes
    exact ⟨es, hes, w₁, hcourse, (Outcome.done.inj hrest).2.symm⟩
  · rintro ⟨es, hes, w₁, hcourse, rfl⟩
    rw [hsupplied] at hcourse
    rw [← List.length_drop] at hes
    refine ⟨_, w₁, bindOptional_eq_done_iff.mpr ⟨rfl, es, hes, hcourse⟩, ?_⟩
    rw [hextra, bindRest_eq]
    rfl

/-- The defaults of inputs that a value is supplied for play no part. -/
theorem bindOptional_congr {inputs inputs' : List (String × List Atom)}
    (hnames : inputs'.map Prod.fst = inputs.map Prod.fst)
    (homitted : inputs'.drop args.length = inputs.drop args.length) :
    bindOptional eng inputs' args = bindOptional eng inputs args := by
  induction args generalizing inputs inputs' with
  | nil => rw [show inputs' = inputs from homitted]
  | cons a args ih =>
    rcases inputs with _ | ⟨⟨name, default⟩, inputs⟩
    · rw [List.map_eq_nil_iff.mp hnames]
    rcases inputs' with _ | ⟨⟨name', default'⟩, inputs'⟩
    · cases hnames
    obtain ⟨rfl, htail⟩ := List.cons.inj hnames
    have hmore := ih htail homitted
    simp only [bindOptional, hmore]

theorem bindAll_congr {d' : Definition} (h : d.inputs.length ≤ args.length)
    (hinputs : d'.inputs = d.inputs) (hrest : d'.rest = d.rest)
    (hnames : d'.optional.map Prod.fst = d.optional.map Prod.fst)
    (homitted : d'.optional.drop (args.length - d.inputs.length)
      = d.optional.drop (args.length - d.inputs.length)) :
    bindAll eng d' args = bindAll eng d args := by
  funext w
  rw [← List.length_drop] at homitted
  rw [bindAll_eq h, bindAll_eq (by rwa [hinputs]), hinputs, hrest,
    bindOptional_congr hnames homitted]

/-- Binding neither loses nor invents a value. For a definition whose inputs have different names
and a number of values that it accepts:

* the values that go to inputs by position and those of the rest input are together the values of
  the call, and without a rest input none is left over;
* binding is done exactly if the defaults of the inputs without a value have values, evaluated once
  each and in order;
* then the body runs in that state, in a frame on top of the others. If the defaults leave the
  inputs alone, each default has found the inputs before its own bound, and in the end all inputs
  are bound by position, those without a value to that of their default, and the rest input to the
  list of the values that are left;
* the other defaults play no part. -/
theorem inputs_bound (fuel : Nat) (d : Definition) (args : List Atom) (w : World)
    (hnodup : (d.parameters.map foldName).Nodup) (haccepts : d.arity.accepts args.length = true) :
    ((d.supplied args).map Prod.snd ++ d.extra args = args ∧ (d.rest = none → d.extra args = [])) ∧
    (∀ w', bindAll (engineOn fuel) d args { w with frames := w.frames.push } = .done () w' ↔
      ∃ es, d.Binds (engineOn fuel) args { w with frames := w.frames.push } es w') ∧
    (∀ es w', d.Binds (engineOn fuel) args { w with frames := w.frames.push } es w' →
      invokeDefined (engineOn fuel) d args w = ((engineOn fuel).perform d.body w').closeFrame ∧
      w'.frames.depth = w.frames.depth + 1 ∧
      (d.supplied args ++ es.map Evaluation.result).map Prod.fst = d.positional ∧
      ((∀ e ∈ es, e.Spares d.parameters) →
        (∀ front e back, es = front ++ e :: back →
          ∀ input ∈ d.supplied args ++ front.map Evaluation.result, e.before.Holds input) ∧
        ∀ input ∈ d.supplied args ++ es.map Evaluation.result ++ d.restInput args,
          w'.Holds input)) ∧
    ∀ d' : Definition, d'.inputs = d.inputs → d'.rest = d.rest →
      d'.optional.map Prod.fst = d.optional.map Prod.fst →
      d'.optional.drop (args.length - d.inputs.length)
        = d.optional.drop (args.length - d.inputs.length) →
      bindAll (engineOn fuel) d' args = bindAll (engineOn fuel) d args := by
  obtain ⟨hle, hmost⟩ := Definition.accepts_arity.mp haccepts
  refine ⟨⟨?_, ?_⟩, fun w' => bindAll_eq_done_iff hle, ?_, ?_⟩
  · rw [Definition.map_snd_supplied, Definition.extra, List.take_append_drop]
  · intro hnone
    rw [Definition.extra, List.drop_eq_nil_iff]
    simpa [Definition.positional, hnone] using hmost
  · intro es w' h
    have hbound := (bindAll_eq_done_iff hle).mpr ⟨es, h⟩
    have hbalanced : (bindAll (engineOn fuel) d args { w with frames := w.frames.push }).Ends
        (Balanced { w with frames := w.frames.push }) :=
      Balanced.law.congruence.bindAll (Balanced.law.engineOn fuel) d args _
    rw [hbound] at hbalanced
    refine ⟨?_, hbalanced.depth, h.names hle, h.holds hle hnodup⟩
    rw [invokeDefined, framed_apply, Run.bind_done hbound]
  · intro d' hinputs hrest hnames homitted
    exact bindAll_congr hle hinputs hrest hnames homitted

/-- A required input, a default that looks at it, and a rest input that nothing is left for. -/
theorem inputs_bound_default : ∃ w',
    bindAll (engineOn 3) ⟨["a"], [("b", [.word ":A"])], some "c", 1, []⟩ [.word "x"]
      { frames := Frames.push {} } = .done () w' ∧
    ∀ input ∈ [("a", Atom.word "x"), ("b", .word "x"), ("c", .list [])], w'.Holds input := by
  let d : Definition := ⟨["a"], [("b", [.word ":A"])], some "c", 1, []⟩
  let w₁ : World := World.bindEach { frames := Frames.push {} } (d.supplied [.word "x"])
  let e : Evaluation := ⟨"b", [.word ":A"], w₁, .word "x", w₁⟩
  have hnodup : (d.parameters.map foldName).Nodup := by decide
  obtain ⟨-, hdone, hbinds, -⟩ := inputs_bound 3 d [.word "x"] {} hnodup rfl
  have h : d.Binds (engineOn 3) [.word "x"] { frames := Frames.push {} } [e] _ :=
    ⟨rfl, _, .cons rfl rfl (.nil _), rfl⟩
  have hspares : ∀ e' ∈ [e], e'.Spares d.parameters := by
    intro e' he' name _ a ha
    obtain rfl := List.mem_singleton.mp he'
    exact ha
  exact ⟨_, (hdone _).mpr ⟨[e], h⟩, ((hbinds [e] _ h).2.2.2 hspares).2⟩

end TurtleLogo
