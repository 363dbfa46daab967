import TurtleLogo.Proofs.Run.Law

set_option autoImplicit false

/-! # What programs can do to the registry

A program enters definitions and does nothing else to the registry. Primitives stay what they are, a
name that has a definition keeps one, and nothing but definitions is added, over whole runs and
however they end. A definition that fails changes nothing at all. -/

namespace TurtleLogo

namespace Registry

/-- The name has a definition in the language. -/
def Defines (r : Registry) (name : String) : Prop :=
  ∃ p, r.get? name = some p ∧ p.isPrimitive = false

/-- Primitives are the same, definitions are definitions still, and what is new is a definition. -/
structure Safe (r r' : Registry) : Prop where
  primitive {name : String} {p : Procedure} :
    r.get? name = some p → p.isPrimitive = true → r'.get? name = some p
  defined {name : String} : r.Defines name → r'.Defines name
  unbound {name : String} : r.get? name = none → r'.get? name = none ∨ r'.Defines name

variable {r r₁ r₂ : Registry}

theorem Safe.refl (r : Registry) : Safe r r :=
  ⟨fun h _ => h, fun h => h, Or.inl⟩

theorem Safe.trans (h₁ : Safe r r₁) (h₂ : Safe r₁ r₂) : Safe r r₂ where
  primitive hget hprim := h₂.primitive (h₁.primitive hget hprim) hprim
  defined h := h₂.defined (h₁.defined h)
  unbound h := by
    rcases h₁.unbound h with hnone | hdefined
    · exact h₂.unbound hnone
    · exact Or.inr (h₂.defined hdefined)

/-- Reading is safe: what it enters takes the place of no primitive. -/
theorem Extends.safe {atoms left : List Atom} (h : Extends atoms left r r₁) : Safe r r₁ where
  primitive {name p} hget hprim := by
    rcases h name with hsame | ⟨given, d, -, -, -, hold⟩
    · exact hsame.trans hget
    · rw [hold p hget] at hprim
      exact absurd hprim (by simp)
  defined {name} hdefined := by
    rcases h name with hsame | ⟨given, d, -, hnew, -, -⟩
    · obtain ⟨p, hget, hprim⟩ := hdefined
      exact ⟨p, hsame.trans hget, hprim⟩
    · exact ⟨d.entry given, hnew, rfl⟩
  unbound {name} hnone := by
    rcases h name with hsame | ⟨given, d, -, hnew, -, -⟩
    · exact Or.inl (hsame.trans hnone)
    · exact Or.inr ⟨d.entry given, hnew, rfl⟩

theorem Safe.law : Run.Law fun w w' => Safe w.procedures w'.procedures :=
  .ofRegistry Safe.refl Safe.trans Extends.safe

end Registry

/-- A definition that fails leaves the registry as it was. -/
theorem Parse.define_fail {definer : Procedure} {ctx : Parse.Context} {s s' : Parse.State}
    {f : Fault} (h : Parse.define definer ctx s = .fail f s') :
    s'.registry = s.registry ∧
      f.cause.kind ∈ [.badDefinition, .redefinePrimitive, .aborted, .depthExceeded] := by
  rcases define_fail_inv h with
    ⟨-, rfl, rfl⟩ | ⟨-, -, rfl, rfl⟩ | ⟨-, -, cause, rest, rfl, rfl, hwhy⟩
  · exact ⟨rfl, by decide⟩
  · exact ⟨rfl, by simp [Cause.kind]⟩
  · refine ⟨rfl, ?_⟩
    rcases kind_of_refused hwhy with hkind | hkind <;> simp [hkind]

/-- However a run ends, every primitive is the one it was, every name with a definition has one
still, and a name that had none has none or a definition. A `TO` that fails leaves the registry as
it found it. -/
theorem run_keeps_primitives (fuel : Nat) (job : Job) (w : World) :
    (interpret fuel job w).Ends (fun w' => w.procedures.Safe w'.procedures) ∧
    ∀ (definer : Procedure) (ctx : Parse.Context) (s s' : Parse.State) (f : Fault),
      Parse.define definer ctx s = .fail f s' →
        s'.registry = s.registry ∧
          f.cause.kind ∈ [.badDefinition, .redefinePrimitive, .aborted, .depthExceeded] := by
  refine ⟨(Registry.Safe.law.engineOn fuel).run job w, ?_⟩
  intro definer ctx s s' f hfail
  exact Parse.define_fail hfail

/-- `TO TO END` is refused: `TO` is a primitive, and stays. -/
theorem run_keeps_primitives_to : ∃ f s',
    Parse.define ⟨"TO", .definer, .fixed 0⟩ ⟨#[], 8, false⟩
      ⟨[.word "to", .word "end"], ⟨[("to", ⟨"TO", .definer, .fixed 0⟩)]⟩⟩ = .fail f s' ∧
    s'.registry = ⟨[("to", ⟨"TO", .definer, .fixed 0⟩)]⟩ ∧
    f.cause.kind ∈ [.badDefinition, .redefinePrimitive, .aborted, .depthExceeded] := by
  have hfail : Parse.define ⟨"TO", .definer, .fixed 0⟩ ⟨#[], 8, false⟩
      ⟨[.word "to", .word "end"], ⟨[("to", ⟨"TO", .definer, .fixed 0⟩)]⟩⟩ = .fail _ _ := rfl
  exact ⟨_, _, hfail, (run_keeps_primitives 0 (.execute [] false) {}).2 _ _ _ _ _ hfail⟩

end TurtleLogo
