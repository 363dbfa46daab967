import TurtleLogo.Proofs.Parse.Effect
import TurtleLogo.Proofs.Run.Congruence

set_option autoImplicit false

/-! # Before and after a run

`Law S` says that a relation `S` between states survives everything that a program can do.
`Law.engineOn` concludes that it holds between the states before and after any run that ends,
whether the run is done or exits early. -/

namespace TurtleLogo

namespace Run

/-- A relation between the state before and the state after, which every change of the state by a
program respects. The last three are about changes that are taken back: the relation holds on the
outside if it holds on the inside. -/
structure Law (S : World → World → Prop) : Prop where
  refl (w : World) : S w w
  trans {w₁ w₂ w₃ : World} : S w₁ w₂ → S w₂ w₃ → S w₁ w₃
  turtle (w : World) (turtle : Turtle) : S w { w with turtle }
  assign (w : World) (name : String) (a : Atom) : S w (w.assign name a)
  bindLocal (w : World) (name : String) (a : Atom) :
    S w { w with frames := w.frames.bindLocal name a }
  declareLocal (w : World) (name : String) : S w { w with frames := w.frames.declareLocal name }
  setTest (w : World) (flag : Option Bool) : S w { w with frames := w.frames.setTest flag }
  write (w : World) (line : String) : S w { w with lines := w.lines.push line }
  setAborted (w : World) (aborted : Bool) : S w { w with aborted }
  define {w : World} {atoms left : List Atom} {procedures : Registry} :
    Registry.Extends atoms left w.procedures procedures → S w { w with procedures }
  counted {w w' : World} (i : Nat) :
    S (Act.withRepcount i w) w' → S w (Act.withRepcount w.repcount w')
  called {w w' : World} (name : String) :
    S { w with calls := w.calls.push name } w' → S w w'.dropCall
  framed {w w' : World} :
    S { w with frames := w.frames.push } w' → S w { w' with frames := w'.frames.pop }

namespace Law

variable {S : World → World → Prop} {α β : Type}

theorem bind (h : Law S) {m : Run α} {f : α → Run β} (hm : ∀ w, (m w).Ends (S w))
    (hf : ∀ a w, (f a w).Ends (S w)) (w : World) : ((m >>= f) w).Ends (S w) :=
  (hm w).bind (fun _ h₁ => h₁) fun a w₁ h₁ => (hf a w₁).imp fun _ h₂ => h.trans h₁ h₂

theorem heedAbort (h : Law S) (w : World) : (Run.heedAbort w).Ends (S w) := by
  cases habort : w.aborted with
  | true => rw [heedAbort_stop habort]; exact h.refl w
  | false => rw [heedAbort_go habort]; exact h.refl w

theorem parse (h : Law S) (atoms : List Atom) (w : World) :
    (Engine.parse atoms w).Ends (S w) := by
  obtain ⟨s, heffect, ⟨e, hparse⟩ | ⟨f, hparse⟩⟩ := Engine.parse_effect atoms w
  · rw [hparse]
    exact h.define heffect.registry
  · rw [hparse]
    exact h.define heffect.registry

theorem ends_counted (h : Law S) (i : Nat) {m : Run Unit} (hm : ∀ w, (m w).Ends (S w))
    (w : World) : (Act.counted i m w).Ends (S w) := by
  rw [Act.counted_apply]
  exact Act.Ends.restore (hm (Act.withRepcount i w)) w.repcount fun _ hends => h.counted i hends

theorem ends_called (h : Law S) (name : String) {m : Run (Option Atom)}
    (hm : ∀ w, (m w).Ends (S w)) (w : World) :
    ((enter name >>= fun _ => leaving m) w).Ends (S w) := by
  -- A procedure that could not be entered is not left either.
  cases habort : w.aborted with
  | true =>
    rw [bind_exit (enter_aborted habort)]
    exact h.refl w
  | false =>
    rcases Nat.lt_or_ge w.calls.size w.limit with hdepth | hdeep
    · rw [bind_done (enter_done habort hdepth)]
      exact (hm { w with calls := w.calls.push name }).closeCall fun _ hs => h.called name hs
    · rw [bind_exit (enter_tooDeep habort hdeep)]
      exact h.refl w

theorem ends_framed (h : Law S) {m : Run Unit} (hm : ∀ w, (m w).Ends (S w)) (w : World) :
    (TurtleLogo.framed m w).Ends (S w) :=
  (hm { w with frames := w.frames.push }).closeFrame fun _ hs => h.framed hs

/-- That a law holds between the states before and after is respected by everything a program is
made of. -/
theorem congruence (h : Law S) : Congruence fun _ m _ => ∀ w, (m w).Ends (S w) where
  done _ w := h.refl w
  bind hm hf := h.bind hm hf
  exit _ w := h.refl w
  attempt hm hf w := (hm w).attempt fun x w₁ h₁ => (hf x w₁).imp fun _ h₂ => h.trans h₁ h₂
  exhausted _ _ := trivial
  heedAbort := h.heedAbort
  look _ _ _ _ hk w := hk _ w
  onTurtle f w := h.turtle w (f w.turtle)
  assign name a w := h.assign w name a
  bindLocal name a w := h.bindLocal w name a
  declareLocal name w := h.declareLocal w name
  setTest flag w := h.setTest w flag
  write line w := h.write w line
  setAborted flag w := h.setAborted w flag
  parse := h.parse
  counted i _ _ hm := h.ends_counted i hm
  called name _ _ hm := h.ends_called name hm
  framed hm := h.ends_framed hm

/-- A relation between registries that reading respects is a law: nothing else changes the
registry. -/
theorem ofRegistry {R : Registry → Registry → Prop} (hrefl : ∀ r, R r r)
    (htrans : ∀ {r₁ r₂ r₃}, R r₁ r₂ → R r₂ r₃ → R r₁ r₃)
    (hextend : ∀ {atoms left r r'}, Registry.Extends atoms left r r' → R r r') :
    Law fun w w' => R w.procedures w'.procedures where
  refl w := hrefl w.procedures
  trans := htrans
  turtle w _ := hrefl w.procedures
  assign w _ _ := hrefl w.procedures
  bindLocal w _ _ := hrefl w.procedures
  declareLocal w _ := hrefl w.procedures
  setTest w _ := hrefl w.procedures
  write w _ := hrefl w.procedures
  setAborted w _ := hrefl w.procedures
  define := hextend
  counted _ h := h
  called _ h := h
  framed h := h

theorem engineOn (h : Law S) (fuel : Nat) :
    Related (fun _ m _ => ∀ w, (m w).Ends (S w)) (TurtleLogo.engineOn fuel)
      (TurtleLogo.engineOn fuel) :=
  h.congruence.engines (Nat.le_refl fuel)

end Law

end Run

end TurtleLogo
