import TurtleLogo.Proofs.Parse.Parenthesis
import TurtleLogo.Proofs.Run.Arity
import TurtleLogo.Proofs.Run.Law
import TurtleLogo.Proofs.Run.Sequence

set_option autoImplicit false

/-! # Parentheses in programs

A program that runs to its end has been read to its end, one expression after the other, and what
each of them takes is enclosed. So all its parentheses match, except for those that stand inside
definitions or call `TO`: `(TO F END` is a program that runs, and its parenthesis is never closed
(`unclosed_definition_runs`). -/

namespace TurtleLogo

/-! ## Registries stay regular -/

namespace Registry

theorem Regular.law :
    Run.Law fun w w' => ∀ isTo, w.procedures.Regular isTo → w'.procedures.Regular isTo :=
  .ofRegistry (R := fun r r' => ∀ isTo, r.Regular isTo → r'.Regular isTo) (fun _ _ h => h)
    (fun h₁ h₂ isTo h => h₂ isTo (h₁ isTo h)) (fun hr _ h => h.extend hr)

/-- A registry that knows nothing but names is regular. -/
theorem Named.regular {r : Registry} (h : r.Named) : r.Regular r.definers := by
  have hnone : ∀ w, Definition.isName w = false → r.get? w = none := by
    intro w hw
    cases hget : r.get? w with
    | none => rfl
    | some p => simp [h w (by simp [NameTable.contains, hget])] at hw
  refine ⟨hnone _ (by decide), hnone _ (by decide), rfl, fun w hw => h w ?_⟩
  cases hget : r.get? w with
  | none => simp [Registry.definers, hget] at hw
  | some p => simp [NameTable.contains, hget]

end Registry

variable {isTo : Atom → Bool} {fuel : Nat} {keep : Bool} {w w' : World} {v : Option Atom}
variable {atoms rest : List Atom}

theorem Outcome.Ends.of_world? {α : Type} {P : World → Prop} {o : Outcome α} (h : o.Ends P)
    (hw : o.world? = some w) : P w := by
  cases o with
  | done a w' => exact Option.some.inj hw ▸ h
  | exit e w' => exact Option.some.inj hw ▸ h
  | exhausted => cases hw

/-- In every state that an interpreter can come to, the words for `TO` are those of a new one. -/
theorem Reachable.regular (h : Reachable w) :
    w.procedures.Regular Registry.standard.definers := by
  induction h with
  | fresh => exact Registry.standard_named.regular
  | execute fuel code keep _ hends ih =>
    have hlaw := (Registry.Regular.law.engineOn fuel).run (.execute code keep)
    exact (hlaw _).of_world? hends _ ih
  | evaluate fuel atoms _ hends ih =>
    have hlaw := Registry.Regular.law.congruence.evaluate (Registry.Regular.law.engineOn fuel) atoms
    exact (hlaw _).of_world? hends _ ih
  | host _ hprocedures ih => exact hprocedures ▸ ih

/-! ## Programs -/

theorem Engine.parse_enclosed {e : Expr} (hr : w.procedures.Regular isTo)
    (h : Engine.parse atoms w = .done (e, rest) w') :
    w'.procedures.Regular isTo ∧ ∃ ts, atoms = ts ++ rest ∧ Parse.Enclosed isTo ts := by
  unfold Engine.parse at h
  split at h
  · next e' s hread =>
    simp only [Outcome.done.injEq, Prod.mk.injEq] at h
    obtain ⟨⟨rfl, rfl⟩, rfl⟩ := h
    exact Parse.Spans.expression _ hr hread
  · simp at h

theorem Engine.evaluate_enclosed (hr : w.procedures.Regular isTo)
    (h : (engineOn fuel).evaluate atoms w = .done (v, rest) w') :
    w'.procedures.Regular isTo ∧ ∃ ts, atoms = ts ++ rest ∧ Parse.Enclosed isTo ts := by
  obtain ⟨e, w₁, hparse, hforce⟩ := Engine.evaluate_eq_done.mp h
  obtain ⟨hr₁, ts, hts, henclosed⟩ := Engine.parse_enclosed hr hparse
  have hlaw : ((engineOn fuel).force e w₁).Ends _ :=
    (Registry.Regular.law.engineOn fuel).run (.force e) w₁
  rw [hforce] at hlaw
  exact ⟨hlaw isTo hr₁, ts, hts, henclosed⟩

/-- A list of instructions that is run to its end is enclosed. -/
theorem instructions_enclosed :
    ∀ (n : Nat) (last : Option Atom) (atoms : List Atom) (w : World), atoms.length ≤ n →
      w.procedures.Regular isTo → instructions (engineOn fuel) keep n last atoms w = .done v w' →
      Parse.Enclosed isTo atoms := by
  intro n
  induction n with
  | zero =>
    intro last atoms w hn _ _
    obtain rfl := List.eq_nil_of_length_eq_zero (Nat.le_zero.mp hn)
    exact .nil
  | succ n ih =>
    intro last atoms w hn hr h
    by_cases hnil : atoms = []
    · exact hnil ▸ .nil
    rw [instructions_step n last hnil] at h
    obtain ⟨⟨u, rest⟩, w₁, heval, hproceed⟩ := Run.bind_eq_done.mp h
    obtain ⟨hr₁, ts, rfl, henclosed⟩ := Engine.evaluate_enclosed hr heval
    have hlt := Engine.evaluate_length heval
    refine henclosed.append ?_
    cases u with
    | none => exact ih none rest w₁ (by omega) hr₁ hproceed
    | some a =>
      simp only [proceed] at hproceed
      split at hproceed
      · exact ih (some a) rest w₁ (by omega) hr₁ hproceed
      · simp [Run.fail, Run.exit] at hproceed

theorem execute_enclosed {code : List Atom} (hr : w.procedures.Regular isTo)
    (h : interpret fuel (.execute code keep) w = .done v w') : Parse.Enclosed isTo code := by
  cases fuel with
  | zero => simp [interpret] at h
  | succ fuel =>
    rw [interpret_succ] at h
    exact instructions_enclosed code.length none code w (Nat.le_refl _) hr h

/-- Parentheses match. In every state that an interpreter can come to, the registry is regular, and
in a regular registry:

* what an expression takes of the atoms has matching parentheses outside definitions, apart from
  the opening ones that call `TO`;
* so has every program that runs to its end. -/
theorem parentheses_matched (isTo : Atom → Bool) :
    (∀ w, Reachable w → w.procedures.Regular Registry.standard.definers) ∧
    (∀ (ctx : Parse.Context) (s s' : Parse.State) (e : Expr),
      s.registry.Regular isTo → parseExpr ctx s = .ok e s' →
        ∃ ts, s.atoms = ts ++ s'.atoms ∧ Parse.Matched isTo ts) ∧
    (∀ (fuel : Nat) (code : List Atom) (keep : Bool) (w w' : World) (v : Option Atom),
      w.procedures.Regular isTo →
        interpret fuel (.execute code keep) w = .done v w' → Parse.Matched isTo code) := by
  refine ⟨fun w h => h.regular, ?_, ?_⟩
  · intro ctx s s' e hr h
    obtain ⟨-, ts, hts, henclosed⟩ := Parse.Spans.expression s.atoms.length hr h
    exact ⟨ts, hts, henclosed.matched fun a ha => hr.isParen_eq_false ha⟩
  · intro fuel code keep w w' v hr h
    exact (execute_enclosed hr h).matched fun a ha => hr.isParen_eq_false ha

/-- The registry that knows `TO` only. -/
def Registry.onlyTo : Registry :=
  ⟨[("to", ⟨"TO", .definer, .fixed 0⟩)]⟩

theorem Registry.onlyTo_regular : onlyTo.Regular onlyTo.definers := by
  have hnamed : (Registry.register {} "to" (.fixed 0) .definer).Named := by
    refine Named.register (fun name hname => ?_) (by decide)
    simp [NameTable.contains, NameTable.get?] at hname
  exact Named.regular hnamed

/-- A group around a definition, and a definition in a parenthesis that it leaves open. -/
theorem parentheses_matched_definition :
    (∃ ts, [Atom.word "(", .word "-", .word "to", .word "f", .word "end", .word ")"] = ts ++ [] ∧
      Parse.Matched Registry.onlyTo.definers ts) ∧
    Parse.Matched Registry.onlyTo.definers
      [.word "(", .word "to", .word "f", .word "end", .word "to", .word "g", .word "end"] := by
  have hread : parseExpr ⟨#[], 8, false⟩
      ⟨[.word "(", .word "-", .word "to", .word "f", .word "end", .word ")"], Registry.onlyTo⟩
        = .ok (.negate .nothing) ⟨[], _⟩ := rfl
  have hrun : interpret 2 (.execute [.word "(", .word "to", .word "f", .word "end", .word "to",
      .word "g", .word "end"] false) { procedures := Registry.onlyTo } = .done none _ := rfl
  exact ⟨(parentheses_matched _).2.1 _ _ _ _ Registry.onlyTo_regular hread,
    (parentheses_matched _).2.2 _ _ _ _ _ _ Registry.onlyTo_regular hrun⟩

/-- A parenthesis that calls `TO` is not closed, and nothing comes of it: `(TO F END` runs to its
end, though one more parenthesis is opened outside the definition than is closed. -/
theorem unclosed_definition_runs :
    (∃ w', interpret 2 (.execute [.word "(", .word "to", .word "f", .word "end"] false)
      { procedures := Registry.onlyTo } = .done none w') ∧
    ¬ Atom.Balanced (Parse.outside Registry.onlyTo.definers
      [.word "(", .word "to", .word "f", .word "end"]) := by
  refine ⟨⟨_, rfl⟩, fun hbalanced => ?_⟩
  have hopen : Registry.onlyTo.definers (.word "(") = false := rfl
  have hto : Registry.onlyTo.definers (.word "to") = true := rfl
  have hparse : Definition.parse [.word "f", .word "end"]
      = (.ok ("f", ⟨[], [], none, 0, []⟩), []) := rfl
  have hdefinition : Parse.outside Registry.onlyTo.definers
      (.word "to" :: ([.word "f", .word "end"] ++ [])) = .word "to" :: _ :=
    Parse.outside_definition hto hparse
  have houtside : Parse.outside Registry.onlyTo.definers
      [.word "(", .word "to", .word "f", .word "end"] = [.word "(", .word "to"] := by
    rw [Parse.outside_cons hopen]
    exact congrArg _ (hdefinition.trans (by rw [Parse.outside_nil]))
  rw [houtside] at hbalanced
  exact absurd hbalanced.closed (by decide)

end TurtleLogo
