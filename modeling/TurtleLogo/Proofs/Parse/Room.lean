import TurtleLogo.Proofs.Parse.Header

set_option autoImplicit false

/-! # Room for the inputs of a call

A call without parentheses may be read into room that is set aside for all of its inputs before the
first of them is read (`reserving`). No more than `maxRoom` bytes can be set aside, and a call that
asks for more overflows (`naturalCallWithin`). An overflow is no way for reading to end: it takes
the interpreter down with it, and the readers of `TurtleLogo.Expr`, which set nothing aside, have an
answer where there would be none. A header without a rest input cannot declare more inputs than it
has, but with one it can declare any number, and then there may be no room for them
(`Definition.declared_without_room`). No other calls overflow, and with no room set aside they would
end in faults for want of atoms (`naturalCall_overflows_iff`). -/

namespace TurtleLogo

/-- The most bytes that can be set aside at once. -/
def maxRoom : Nat :=
  Nat.pow 2 63 - 1

/-- Whether room can be set aside for `count` inputs of `size` bytes each. -/
def HasRoom (size count : Nat) : Prop :=
  count * size ≤ maxRoom

instance (size count : Nat) : Decidable (HasRoom size count) :=
  inferInstanceAs (Decidable (count * size ≤ maxRoom))

namespace HasRoom

variable {size count count' : Nat}

theorem mono (h : HasRoom size count) (hle : count' ≤ count) : HasRoom size count' :=
  (Nat.mul_le_mul_right size hle).trans h

/-- There is less room than the largest count, so it makes no difference to cut off there. -/
theorem min_maxCount_iff (hsize : 0 < size) :
    HasRoom size (min count Decimal.maxCount) ↔ HasRoom size count := by
  refine ⟨fun h => ?_, fun h => h.mono (Nat.min_le_left ..)⟩
  have hbytes : min count Decimal.maxCount ≤ maxRoom := (Nat.le_mul_of_pos_right _ hsize).trans h
  have hlimit : maxRoom < Decimal.maxCount := by decide
  rwa [show min count Decimal.maxCount = count by omega] at h

end HasRoom

/-- Sets room aside for `count` inputs of `size` bytes each before going on. There is no result if
the room overflows. -/
def reserving {α : Type} (size count : Nat) (a : α) : Option α :=
  if HasRoom size count then some a else none

theorem reserving_eq_none_iff {α : Type} {size count : Nat} {a : α} :
    reserving size count a = none ↔ ¬ HasRoom size count := by
  simp [reserving]

theorem reserving_eq_some_iff {α : Type} {size count : Nat} {a b : α} :
    reserving size count a = some b ↔ HasRoom size count ∧ a = b := by
  simp [reserving]

/-! ## Declared numbers of inputs -/

namespace Definition

variable {ts left : List Atom} {name : String} {d : Definition} {size count : Nat}

/-- Whether the header of the definition of `name` that the atoms begin with declares `count`
inputs. -/
def Declares (d : Definition) (name : String) (ts left : List Atom) (count : Nat) : Prop :=
  ∃ w close, d.Spells name (some w) close ∧ ts = d.spelling name (some w) close ++ left ∧
    Denotes w count

theorem Denotes.unique {w : String} {count' : Nat} (h : Denotes w count) (h' : Denotes w count') :
    count = count' := by
  obtain ⟨x, hx, -, -, rfl⟩ := h
  obtain ⟨y, hy, -, -, rfl⟩ := h'
  rw [hx, Option.some.injEq] at hy
  rw [hy]

theorem Declares.natural_eq (h : d.Declares name ts left count) :
    d.natural = min count Decimal.maxCount := by
  obtain ⟨w, close, hspells, -, hcount⟩ := h
  obtain ⟨-, count', hcount', hnatural⟩ := hspells.natural w rfl
  rw [hnatural, hcount.unique hcount']

/-- A call without parentheses takes the required inputs or the declared number of them. -/
theorem natural_cases (h : parse ts = (.ok (name, d), left)) :
    d.natural = d.inputs.length ∨ ∃ count, d.Declares name ts left count := by
  obtain ⟨declared, close, hspells, hts⟩ := spells_of_parse h
  cases declared with
  | none => exact .inl (hspells.unnumbered rfl).1
  | some w =>
    obtain ⟨-, count, hcount, -⟩ := hspells.natural w rfl
    exact .inr ⟨count, w, close, hspells, hts, hcount⟩

/-- The required and the optional inputs are atoms of the definition. -/
theorem length_inputs_le (h : parse ts = (.ok (name, d), left)) :
    d.inputs.length + d.optional.length ≤ ts.length := by
  obtain ⟨declared, close, -, rfl⟩ := spells_of_parse h
  simp only [spelling, List.length_append, List.length_cons, List.length_map]
  omega

/-- There is no room exactly if there is none for the required inputs or for the declared number. -/
theorem not_hasRoom_natural_iff (hsize : 0 < size) (h : parse ts = (.ok (name, d), left)) :
    ¬ HasRoom size d.natural ↔ ¬ HasRoom size d.inputs.length ∨
      ∃ count, d.Declares name ts left count ∧ ¬ HasRoom size count := by
  have hleast : d.inputs.length ≤ d.natural := (accepts_arity.mp (parse_ok h).2).1
  have hdeclared : ∀ {count}, d.Declares name ts left count →
      (HasRoom size d.natural ↔ HasRoom size count) := by
    intro count hcount
    rw [hcount.natural_eq, HasRoom.min_maxCount_iff hsize]
  constructor
  · intro hroom
    rcases natural_cases h with hnatural | ⟨count, hcount⟩
    · exact .inl (hnatural ▸ hroom)
    · exact .inr ⟨count, hcount, mt (hdeclared hcount).mpr hroom⟩
  · rintro (hinputs | ⟨count, hcount, hroom⟩)
    · exact fun hnatural => hinputs (hnatural.mono hleast)
    · exact mt (hdeclared hcount).mp hroom

/-- If there is room for the atoms of the definition, the number that there is no room for is
declared, and it is declared behind a rest input. -/
theorem declares_of_not_hasRoom (hsize : 0 < size) (h : parse ts = (.ok (name, d), left))
    (hts : HasRoom size ts.length) (hroom : ¬ HasRoom size d.natural) :
    d.rest.isSome = true ∧ ∃ count, d.Declares name ts left count ∧ ¬ HasRoom size count := by
  have hatoms := length_inputs_le h
  constructor
  · rcases (accepts_arity.mp (parse_ok h).2).2 with hrest | hmost
    · exact hrest
    · exact absurd (hts.mono (hmost.trans hatoms)) hroom
  · rcases (not_hasRoom_natural_iff hsize h).mp hroom with hinputs | hdeclared
    · exact absurd (hts.mono (Nat.le_of_add_right_le hatoms)) hinputs
    · exact hdeclared

end Definition

/-! ## Calls -/

/-- For how many inputs a call without parentheses sets room aside. A definition sets none aside. -/
def Registry.reserves (r : Registry) (name : String) : Nat :=
  match r.get? name with
  | none => 0
  | some p =>
    match p.body with
    | .definer => 0
    | _ => p.arity.natural

namespace Parse

variable {expr : Parse Expr} {name : String} {ctx : Context} {s s' : State}

/-- Reads a call without parentheses into room that is set aside for all its inputs. -/
def naturalCallWithin (size : Nat) (expr : Parse Expr) (name : String) (ctx : Context)
    (s : State) : Option (Result Expr) :=
  reserving size (Registry.reserves s.registry name) (naturalCall expr name ctx s)

/-- As many inputs are read as were asked for, and each takes an atom. -/
theorem naturalInputs_ok (hexpr : Takes expr) {count : Nat} {es : List Expr}
    (h : naturalInputs expr name count ctx s = .ok es s') :
    es.length = count ∧ s'.atoms.length + count ≤ s.atoms.length := by
  induction count generalizing s es with
  | zero =>
    obtain ⟨rfl, rfl⟩ := Result.ok.inj h
    exact ⟨rfl, Nat.le_refl _⟩
  | succ count ih =>
    obtain ⟨a, s₁, hpeek, h⟩ := bind_eq_ok.mp h
    obtain ⟨-, rfl⟩ := Result.ok.inj hpeek
    cases a with
    | none => cases h
    | some a =>
      dsimp only at h
      split at h
      · cases h
      · obtain ⟨e, s₂, he, h⟩ := bind_eq_ok.mp h
        obtain ⟨es', s₃, hes, h⟩ := bind_eq_ok.mp h
        obtain ⟨rfl, rfl⟩ := Result.ok.inj h
        have htaken := hexpr he
        obtain ⟨hlength, hatoms⟩ := ih hes
        rw [List.length_cons, hlength]
        exact ⟨rfl, by omega⟩

/-- A call without parentheses of a procedure that takes atoms for its inputs. -/
theorem naturalCall_ok {p : Procedure} (hexpr : Takes expr) (hget : s.registry.get? name = some p)
    (hbody : p.body ≠ .definer) {e : Expr} (h : naturalCall expr name ctx s = .ok e s') :
    ∃ inputs, e = .call p inputs ∧ inputs.length = p.arity.natural ∧
      s'.atoms.length + p.arity.natural ≤ s.atoms.length := by
  rw [naturalCall, callOf_inputs hget hbody] at h
  obtain ⟨inputs, s₁, hinputs, h⟩ := bind_eq_ok.mp h
  obtain ⟨rfl, rfl⟩ := Result.ok.inj h
  obtain ⟨hlength, hatoms⟩ := naturalInputs_ok hexpr hinputs
  exact ⟨inputs, rfl, hlength, hatoms⟩

/-- A call fails if fewer atoms are left than it takes inputs. -/
theorem naturalCall_fails {p : Procedure} (hexpr : Takes expr)
    (hget : s.registry.get? name = some p) (hbody : p.body ≠ .definer)
    (hfew : s.atoms.length < p.arity.natural) (ctx : Context) :
    ∃ f s', naturalCall expr name ctx s = .fail f s' := by
  cases hcall : naturalCall expr name ctx s with
  | fail f s' => exact ⟨f, s', rfl⟩
  | ok e s' =>
    obtain ⟨-, -, -, htaken⟩ := naturalCall_ok hexpr hget hbody hcall
    omega

end Parse

/-- Under any spelling of its name, a definition that has been entered is found. -/
theorem Registry.get?_install {r r' : Registry} {name word : String} {d : Definition}
    (h : r.install name d = .ok r') (hword : foldName word = foldName name) :
    r'.get? word = some (d.entry name) := by
  rw [(install_ok h).1, NameTable.get?_insert, if_pos hword]

theorem Registry.reserves_install {r r' : Registry} {name word : String} {d : Definition}
    (h : r.install name d = .ok r') (hword : foldName word = foldName name) :
    r'.reserves word = d.natural := by
  rw [reserves, get?_install h hword]
  rfl

theorem Parse.naturalCallWithin_eq_none_iff {size : Nat} {expr : Parse Expr} {ctx : Context}
    {atoms : List Atom} {r r' : Registry} {name word : String} {d : Definition}
    (h : r.install name d = .ok r') (hword : foldName word = foldName name) :
    naturalCallWithin size expr word ctx ⟨atoms, r'⟩ = none ↔ ¬ HasRoom size d.natural := by
  rw [naturalCallWithin, reserving_eq_none_iff, Registry.reserves_install h hword]

/-- A declared number of inputs for which there is no room, however small the inputs are, is
accepted behind a rest input; from then on every call without parentheses overflows. -/
theorem Definition.declared_without_room :
    ∃ d, parse [.word "f", restList "r", .word "1e19", .word "end"] = (.ok ("f", d), []) ∧
      ∀ size, 0 < size → ¬ HasRoom size d.natural ∧
        ∀ r r' : Registry, r.install "f" d = .ok r' → ∀ expr ctx atoms,
          Parse.naturalCallWithin size expr "f" ctx ⟨atoms, r'⟩ = none := by
  refine ⟨⟨[], [], some "r", 10 ^ 19, []⟩, rfl, fun size hsize => ?_⟩
  have hroom : ¬ HasRoom size (10 ^ 19) := by
    intro h
    have hbytes : 10 ^ 19 ≤ maxRoom := (Nat.le_mul_of_pos_right _ hsize).trans h
    exact absurd hbytes (by decide)
  exact ⟨hroom, fun r r' hinstall expr ctx atoms =>
    (Parse.naturalCallWithin_eq_none_iff hinstall rfl).mpr hroom⟩

namespace Parse

/-- A call without parentheses of a definition that was accepted overflows exactly if there is no
room for its required inputs or for the number of inputs that its header declares. If there is room
for the atoms of the definition, the latter is the case and the definition has a rest input. If
there is room for the atoms that are left, the call has too few of them and would end in a fault.
A call that does not overflow ends in a call with its natural number of inputs or in a fault. -/
theorem naturalCall_overflows_iff {size : Nat} (hsize : 0 < size) {ts left : List Atom}
    {name : String} {d : Definition} (hparse : Definition.parse ts = (.ok (name, d), left))
    {r r' : Registry} (hinstall : r.install name d = .ok r') {word : String}
    (hword : foldName word = foldName name) (n : Nat) (ctx : Context) (atoms : List Atom) :
    (naturalCallWithin size (expression n) word ctx ⟨atoms, r'⟩ = none ↔
      ¬ HasRoom size d.inputs.length ∨
        ∃ count, d.Declares name ts left count ∧ ¬ HasRoom size count) ∧
    (naturalCallWithin size (expression n) word ctx ⟨atoms, r'⟩ = none →
      (HasRoom size ts.length → d.rest.isSome = true ∧
        ∃ count, d.Declares name ts left count ∧ ¬ HasRoom size count) ∧
      (HasRoom size atoms.length →
        ∃ f s, naturalCall (expression n) word ctx ⟨atoms, r'⟩ = .fail f s)) ∧
    ∀ result, naturalCallWithin size (expression n) word ctx ⟨atoms, r'⟩ = some result →
      (∃ inputs s, result = .ok (.call (d.entry name) inputs) s ∧ inputs.length = d.natural) ∨
        ∃ f s, result = .fail f s := by
  have hget := Registry.get?_install hinstall hword
  have hbody : (d.entry name).body ≠ .definer := by simp [Definition.entry]
  have hoverflow : naturalCallWithin size (expression n) word ctx ⟨atoms, r'⟩ = none ↔
      ¬ HasRoom size d.natural := naturalCallWithin_eq_none_iff hinstall hword
  refine ⟨hoverflow.trans (Definition.not_hasRoom_natural_iff hsize hparse),
    fun hnone => ⟨fun hts => ?_, fun hatoms => ?_⟩, fun result hresult => ?_⟩
  · exact Definition.declares_of_not_hasRoom hsize hparse hts (hoverflow.mp hnone)
  · -- Every input takes an atom, and the atoms that are left would fit.
    have hfew : atoms.length < d.natural := by
      by_contra hmany
      exact hoverflow.mp hnone (hatoms.mono (Nat.le_of_not_lt hmany))
    exact naturalCall_fails (expression_takes n) hget hbody hfew ctx
  · have hcall : naturalCall (expression n) word ctx ⟨atoms, r'⟩ = result :=
      (reserving_eq_some_iff.mp hresult).2
    cases result with
    | fail f s => exact .inr ⟨f, s, rfl⟩
    | ok e s =>
      obtain ⟨inputs, rfl, hlength, -⟩ := naturalCall_ok (expression_takes n) hget hbody hcall
      exact .inl ⟨inputs, s, rfl, hlength⟩

/-- A numeral that is rounded up to `2 ^ 63`: there is no room for so many inputs of two bytes, and
without room set aside the call would end in a fault for want of inputs. -/
theorem naturalCall_overflows_iff_rounded :
    ∃ (ts : List Atom) (d : Definition) (r r' : Registry) (ctx : Context),
      Definition.parse ts = (.ok ("Spin", d), [.word "spin", .word "1"]) ∧
      r.install "Spin" d = .ok r' ∧ HasRoom 2 ts.length ∧
      naturalCallWithin 2 (expression 1) "spin" ctx ⟨[.word "1"], r'⟩ = none ∧
      (d.rest.isSome = true ∧
        ∃ count, d.Declares "Spin" ts [.word "spin", .word "1"] count ∧ ¬ HasRoom 2 count) ∧
      ∃ f s, naturalCall (expression 1) "spin" ctx ⟨[.word "1"], r'⟩ = .fail f s := by
  have hsize : 0 < 2 := by decide
  have hparse : Definition.parse [.word "Spin", Definition.inputWord "a", Definition.restList "r",
      .word "9223372036854775807", .word "END", .word "spin", .word "1"]
      = (.ok ("Spin", ⟨["a"], [], some "r", 2 ^ 63, []⟩), [.word "spin", .word "1"]) := rfl
  obtain ⟨r', hinstall⟩ : ∃ r', Registry.install {} "Spin" ⟨["a"], [], some "r", 2 ^ 63, []⟩
      = .ok r' := ⟨_, rfl⟩
  have hword : foldName "spin" = foldName "Spin" := by decide +kernel
  have hspin := naturalCall_overflows_iff hsize hparse hinstall hword 1 ⟨#[], 8, false⟩ [.word "1"]
  have hnone : naturalCallWithin 2 (expression 1) "spin" ⟨#[], 8, false⟩ ⟨[.word "1"], r'⟩
      = none := (naturalCallWithin_eq_none_iff hinstall hword).mpr (by decide)
  obtain ⟨hdeclared, hfault⟩ := hspin.2.1 hnone
  have hts : HasRoom 2 7 := by decide
  have hatoms : HasRoom 2 1 := by decide
  exact ⟨_, _, {}, r', _, hparse, hinstall, hts, hnone, hdeclared hts, hfault hatoms⟩

end Parse

end TurtleLogo
