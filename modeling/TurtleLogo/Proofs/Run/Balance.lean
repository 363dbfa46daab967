import TurtleLogo.Proofs.Run.Law

set_option autoImplicit false

/-! # Balance

Procedures are entered and left, frames added and dropped, and the repetition counter set and put
back in pairs, on every path through a run. -/

namespace TurtleLogo

/-! ## The number of frames -/

namespace Frames

variable (fs : Frames) (name : String) (a : Atom)

theorem depth_modifyInnermost (change : Frame → Frame) :
    (fs.modifyInnermost change).depth = fs.depth := by
  unfold modifyInnermost depth
  cases hinner : fs.inner with
  | nil => simp
  | cons f rest => simp

theorem length_assignInner {inner inner' : List Frame}
    (h : assignInner name a inner = some inner') : inner'.length = inner.length := by
  induction inner generalizing inner' with
  | nil => simp [assignInner] at h
  | cons f rest ih =>
    simp only [assignInner] at h
    split at h
    · obtain rfl := Option.some.inj h
      rfl
    · obtain ⟨rest', hrest, rfl⟩ := Option.map_eq_some_iff.mp h
      simp [ih hrest]

theorem depth_assign : (fs.assign name a).depth = fs.depth := by
  unfold assign depth
  cases hinner : assignInner name a fs.inner with
  | none => rfl
  | some inner => simp [length_assignInner name a hinner]

end Frames

/-! ## Balance -/

/-- The running procedures, the number of frames and the repetition counter are the same. -/
structure Balanced (w w' : World) : Prop where
  calls : w'.calls = w.calls
  depth : w'.frames.depth = w.frames.depth
  repcount : w'.repcount = w.repcount

namespace Balanced

theorem refl (w : World) : Balanced w w :=
  ⟨rfl, rfl, rfl⟩

theorem trans {w₁ w₂ w₃ : World} (h₁ : Balanced w₁ w₂) (h₂ : Balanced w₂ w₃) : Balanced w₁ w₃ :=
  ⟨h₂.calls.trans h₁.calls, h₂.depth.trans h₁.depth, h₂.repcount.trans h₁.repcount⟩

theorem dropCall {w w' : World} {name : String}
    (h : Balanced { w with calls := w.calls.push name } w') : Balanced w w'.dropCall := by
  refine ⟨?_, h.depth, h.repcount⟩
  simp only [World.dropCall, h.calls, Array.pop_push]

theorem pop {w w' : World} (h : Balanced { w with frames := w.frames.push } w') :
    Balanced w { w' with frames := w'.frames.pop } := by
  refine ⟨h.calls, ?_, h.repcount⟩
  have hdepth : w'.frames.depth = w.frames.depth + 1 := h.depth
  simp only [Frames.depth, Frames.pop, List.length_tail] at hdepth ⊢
  omega

theorem law : Run.Law Balanced where
  refl := refl
  trans := trans
  turtle _ _ := ⟨rfl, rfl, rfl⟩
  assign w name a := ⟨rfl, w.frames.depth_assign name a, rfl⟩
  bindLocal w _ _ := ⟨rfl, w.frames.depth_modifyInnermost _, rfl⟩
  declareLocal w _ := ⟨rfl, w.frames.depth_modifyInnermost _, rfl⟩
  setTest w _ := ⟨rfl, w.frames.depth_modifyInnermost _, rfl⟩
  write _ _ := ⟨rfl, rfl, rfl⟩
  setAborted _ _ := ⟨rfl, rfl, rfl⟩
  define _ := ⟨rfl, rfl, rfl⟩
  counted _ h := ⟨h.calls, h.depth, rfl⟩
  called _ h := h.dropCall
  framed h := h.pop

end Balanced

/-- However a run ends, the running procedures, the number of frames and the repetition counter are
what they were before it, whether it executes instructions, evaluates the first expression of some
atoms, or forces an expression for nothing, for a value or for a truth value. -/
theorem run_balanced (fuel : Nat) (w : World) (code atoms : List Atom) (keep : Bool) (e : Expr)
    (consumer : String) :
    ((engineOn fuel).execute code keep w).Ends (Balanced w) ∧
    ((engineOn fuel).evaluate atoms w).Ends (Balanced w) ∧
    ((engineOn fuel).force e w).Ends (Balanced w) ∧
    ((engineOn fuel).demand e consumer w).Ends (Balanced w) ∧
    ((engineOn fuel).condition e consumer w).Ends (Balanced w) := by
  have hcongruence := Balanced.law.congruence
  have hengine := Balanced.law.engineOn fuel
  refine ⟨hengine.run (.execute code keep) w, ?_, hengine.run (.force e) w, ?_, ?_⟩
  · exact hcongruence.evaluate hengine atoms w
  · exact hcongruence.demand hengine e consumer w
  · exact hcongruence.condition hengine e consumer w

end TurtleLogo
