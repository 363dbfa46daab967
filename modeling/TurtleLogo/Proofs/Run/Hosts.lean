import TurtleLogo.Proofs.Parse.Yield
import TurtleLogo.Proofs.Run.Law

set_option autoImplicit false

/-! # What is assumed of hosts

The primitives of a host may do whatever an action describes, and some facts about programs hold
only if they abstain from something. Such an assumption is a property `P` of actions. A program
keeps to it if the hosts in its registry do, and in the expressions it starts with: what is read
calls procedures of the registry, and nothing but definitions is ever entered there. -/

namespace TurtleLogo

variable {P : HostAction → Prop}

/-- If the procedure is a primitive of a host, then all that it does satisfies `P`. -/
def Procedure.Hosts (P : HostAction → Prop) (p : Procedure) : Prop :=
  ∀ act, p.body = .host act → ∀ args, P (act args)

/-- All that hosts do in the primitives of a registry satisfies `P`. -/
def Registry.Hosts (P : HostAction → Prop) (r : Registry) : Prop :=
  ∀ name p, r.get? name = some p → p.Hosts P

/-- All that hosts do in the calls of an expression satisfies `P`. -/
def Expr.Hosts (P : HostAction → Prop) (e : Expr) : Prop :=
  e.Calls fun p _ => p.Hosts P

theorem Definition.entry_hosts (d : Definition) (given : String) : (d.entry given).Hosts P :=
  fun _ hbody => by cases hbody

namespace Registry.Hosts

theorem supports : Parse.Supports (Registry.Hosts P) fun p _ => p.Hosts P :=
  .ofAll fun d given => d.entry_hosts given

theorem extend {atoms left : List Atom} {r r' : Registry} (h : Extends atoms left r r')
    (hr : r.Hosts P) : r'.Hosts P := by
  intro name p hget
  rcases h name with hsame | ⟨given, d, -, hnew, -, -⟩
  · exact hr name p (hsame ▸ hget)
  · rw [hnew] at hget
    rw [← Option.some.inj hget]
    exact d.entry_hosts given

theorem of_entries {entries : List (String × Procedure)}
    (h : ∀ entry ∈ entries, entry.2.Hosts P) : Registry.Hosts P ⟨entries⟩ := by
  intro name p hget
  obtain ⟨before, after, rfl, -⟩ := List.lookup_eq_some_iff.mp hget
  exact h (foldName name, p) (by simp)

theorem law : Run.Law fun w w' => w.procedures.Hosts P → w'.procedures.Hosts P :=
  .ofRegistry (fun _ h => h) (fun h₁ h₂ h => h₂ (h₁ h)) extend

end Registry.Hosts

end TurtleLogo
