import TurtleLogo.Turtle.Basic

set_option autoImplicit false

/-! # The drawing as a trace

What a turtle has drawn is the way it went with its pen down. One operation adds one segment, a
chain of segments or none to the drawing, or begins it anew (`Traced`), and the segments that moves
add in a row are joined end to end (`joined_run`). -/

namespace TurtleLogo

/-- The segments lead from one point to another, each beginning where the one before it ends. -/
inductive Joined : Point → List Segment → Point → Prop
  | nil (p : Point) : Joined p [] p
  | cons {p q r : Point} {rest : List Segment} : Joined q rest r → Joined p (⟨p, q⟩ :: rest) r

theorem Joined.append {p q r : Point} {xs ys : List Segment} (hxs : Joined p xs q)
    (hys : Joined q ys r) : Joined p (xs ++ ys) r := by
  induction hxs with
  | nil => exact hys
  | cons _ ih => exact .cons (ih hys)

namespace Turtle

/-- What changes a turtle. Questions about it are answered by functions of it and change nothing. -/
inductive Operation where
  | forward (distance : Float)
  | turn (degrees : Float)
  | moveTo (p : Point)
  | setHeading (angle : Float)
  | home
  | arc (angle radius : Float)
  | setPen (down : Bool)
  | setColor (color : Atom)
  | clear
  | wait (seconds : Float)
  | sound (tone : Tone)
  | assign (name : String) (a : Atom)

namespace Operation

/-- Whether the turtle goes somewhere. -/
def isMove : Operation → Bool
  | forward _ | moveTo _ | home => true
  | _ => false

/-- Whether the turtle draws around itself. -/
def isArc : Operation → Bool
  | arc .. => true
  | _ => false

theorem isArc_of_isMove {op : Operation} (h : op.isMove = true) : op.isArc = false := by
  cases op with
  | arc => cases h
  | _ => rfl

end Operation

variable {t t' : Turtle} {op : Operation} {ops : List Operation}

/-- One operation. -/
def perform (t : Turtle) : Operation → Turtle
  | .forward distance => t.forward distance
  | .turn degrees => t.turn degrees
  | .moveTo p => t.moveTo p
  | .setHeading angle => t.setHeading angle
  | .home => t.home
  | .arc angle radius => t.arc angle radius
  | .setPen down => t.setPen down
  | .setColor color => t.setColor color
  | .clear => t.clear
  | .wait seconds => t.wait seconds
  | .sound tone => t.sound tone
  | .assign name a => t.assign name a

/-- One operation after the other. -/
def run (t : Turtle) (ops : List Operation) : Turtle :=
  ops.foldl perform t

/-- The segments that an operation puts behind those that were there. -/
def added (t : Turtle) (op : Operation) : List Segment :=
  (t.perform op).segments.toList.drop t.segments.size

/-- The operations, each with the segments that it adds. -/
def strokes (t : Turtle) : List Operation → List (Operation × List Segment)
  | [] => []
  | op :: ops => (op, t.added op) :: (t.perform op).strokes ops

/-! ## One operation -/

/-- What an operation that turns `t` into `t'` does to the drawing. -/
inductive Traced (t t' : Turtle) : Operation → Prop
  | drawn {op : Operation} : op.isMove = true → t.penDown = true →
      t'.segments = t.segments.push ⟨t.position, t'.position⟩ → Traced t t' op
  | lifted {op : Operation} : op.isMove = true → t.penDown = false →
      t'.segments = t.segments → Traced t t' op
  | arc {angle radius : Float} {p q : Point} (chain : List Segment) : t'.position = t.position →
      t'.heading = t.heading → t'.segments = t.segments ++ chain → Joined p chain q →
      (chain = [] ↔ t.penDown = false ∨ (angle == 0.0) = true) → Traced t t' (.arc angle radius)
  | cleared : t'.segments = #[] → t'.position = Point.origin → Traced t t' .clear
  | other {op : Operation} : op.isMove = false → op.isArc = false → op ≠ .clear →
      t'.segments = t.segments → t'.position = t.position → Traced t t' op

theorem Traced.of_moveTo {p : Point} (hop : op.isMove = true)
    (hsegments : t'.segments = (t.moveTo p).segments)
    (hposition : t'.position = (t.moveTo p).position) : Traced t t' op := by
  cases hpen : t.penDown with
  | true => exact .drawn hop hpen (by rw [hsegments, hposition, moveTo, if_pos hpen])
  | false =>
    have hup : ¬ t.penDown = true := by simp [hpen]
    exact .lifted hop hpen (by rw [hsegments, moveTo, if_neg hup])

theorem joined_chain (corner : Nat → Point) (start : Point) (i count : Nat) :
    ∃ finish, Joined start (chain corner start i count) finish := by
  induction count generalizing start i with
  | zero => exact ⟨start, .nil start⟩
  | succ count ih =>
    obtain ⟨finish, hjoined⟩ := ih (corner i) (i + 1)
    exact ⟨finish, .cons hjoined⟩

theorem joined_arcSegments (t : Turtle) (angle radius : Float) :
    ∃ start finish, Joined start (t.arcSegments angle radius) finish :=
  ⟨_, joined_chain ..⟩

theorem arcSegments_ne_nil (t : Turtle) (angle radius : Float) :
    t.arcSegments angle radius ≠ [] := by
  obtain ⟨n, hsteps⟩ : ∃ n, arcSteps angle = n + 1 :=
    Nat.exists_eq_add_one.mpr (Nat.le_max_right ..)
  rw [arcSegments, hsteps, chain]
  exact List.cons_ne_nil _ _

theorem traced_arc (t : Turtle) (angle radius : Float) :
    Traced t (t.arc angle radius) (.arc angle radius) := by
  by_cases hdraws : (t.penDown && !(angle == 0.0)) = true
  · obtain ⟨start, finish, hjoined⟩ := joined_arcSegments t angle radius
    rw [arc, if_pos hdraws]
    rw [Bool.and_eq_true, Bool.not_eq_true'] at hdraws
    refine .arc (t.arcSegments angle radius) rfl rfl rfl hjoined ?_
    simp [arcSegments_ne_nil, hdraws]
  · rw [arc, if_neg hdraws]
    refine .arc [] rfl rfl rfl (.nil t.position) ?_
    cases hpen : t.penDown <;> simp_all

/-- What each operation does to the drawing. -/
theorem traced (t : Turtle) (op : Operation) : Traced t (t.perform op) op := by
  cases op with
  | forward distance => exact .of_moveTo rfl rfl rfl
  | moveTo p => exact .of_moveTo rfl rfl rfl
  | home => exact .of_moveTo (p := Point.origin) rfl rfl rfl
  | arc angle radius => exact traced_arc t angle radius
  | clear => exact .cleared rfl rfl
  | turn | setHeading | setPen | setColor | wait | sound | assign =>
    exact .other rfl rfl (by simp) rfl rfl

/-- What an operation other than clearing adds leads, with the pen down, from the position before to
the position after; an arc leaves the turtle where it is. -/
theorem Traced.appended (h : Traced t t' op) (hclear : op ≠ .clear) :
    ∃ chain, t'.segments.toList = t.segments.toList ++ chain ∧
      (t.penDown = true → Joined t.position (if op.isArc then [] else chain) t'.position) := by
  cases h with
  | drawn hmove _ hsegments =>
    refine ⟨[⟨t.position, t'.position⟩], by rw [hsegments, Array.toList_push], fun _ => ?_⟩
    rw [Operation.isArc_of_isMove hmove]
    exact .cons (.nil t'.position)
  | lifted _ hup hsegments =>
    refine ⟨[], by rw [hsegments, List.append_nil], fun hdown => ?_⟩
    rw [hup] at hdown
    cases hdown
  | arc chain hposition _ hsegments =>
    refine ⟨chain, by rw [hsegments, Array.toList_appendList], fun _ => ?_⟩
    rw [hposition]
    exact .nil t.position
  | cleared => exact absurd rfl hclear
  | other _ _ _ hsegments hposition =>
    refine ⟨[], by rw [hsegments, List.append_nil], fun _ => ?_⟩
    rw [ite_self, hposition]
    exact .nil t.position

theorem traced_added (t : Turtle) (h : op ≠ .clear) :
    (t.perform op).segments.toList = t.segments.toList ++ t.added op ∧
    (t.penDown = true →
      Joined t.position (if op.isArc then [] else t.added op) (t.perform op).position) := by
  obtain ⟨chain, hsegments, hjoined⟩ := (traced t op).appended h
  have hadded : t.added op = chain := by
    rw [added, hsegments, ← Array.length_toList, List.drop_left]
  rw [hadded]
  exact ⟨hsegments, hjoined⟩

/-! ## Many operations -/

/-- The drawing grows by what each operation adds. -/
theorem segments_run (h : .clear ∉ ops) :
    (t.run ops).segments.toList = t.segments.toList ++ (t.strokes ops).flatMap (·.2) := by
  induction ops generalizing t with
  | nil => exact (List.append_nil _).symm
  | cons op ops ih =>
    rw [List.mem_cons, not_or] at h
    obtain ⟨hop, hops⟩ := h
    rw [strokes, List.flatMap_cons, ← List.append_assoc, ← (traced_added t (Ne.symm hop)).1]
    exact ih hops

/-- The segments that moves add lead from the first position to the last. -/
theorem joined_run (h : .clear ∉ ops)
    (hdown : ∀ front, front <+: ops → (t.run front).penDown = true) :
    Joined t.position (((t.strokes ops).filter (!·.1.isArc)).flatMap (·.2))
      (t.run ops).position := by
  induction ops generalizing t with
  | nil => exact .nil t.position
  | cons op ops ih =>
    rw [List.mem_cons, not_or] at h
    obtain ⟨hop, hops⟩ := h
    have hfirst := (traced_added t (Ne.symm hop)).2 (hdown [] (List.nil_prefix ..))
    have hrest := ih hops fun front hfront => hdown (op :: front) (by simpa using hfront)
    have hstrokes : ((t.strokes (op :: ops)).filter (!·.1.isArc)).flatMap (·.2)
        = (if op.isArc then [] else t.added op)
          ++ (((t.perform op).strokes ops).filter (!·.1.isArc)).flatMap (·.2) := by
      rw [strokes, List.filter_cons]
      cases op.isArc <;> rfl
    rw [hstrokes]
    exact hfirst.append hrest

theorem penDown_perform (h : t.penDown = true) (hop : op ≠ .setPen false) :
    (t.perform op).penDown = true := by
  have hmove : ∀ p, (t.moveTo p).penDown = true := by
    intro p
    rw [moveTo, if_pos h]
    exact h
  cases op with
  | forward distance => exact hmove _
  | moveTo p => exact hmove p
  | home => exact hmove Point.origin
  | arc angle radius =>
    rw [perform, arc]
    split <;> exact h
  | setPen down =>
    cases down with
    | true => rfl
    | false => exact absurd rfl hop
  | turn | setHeading | setColor | clear | wait | sound | assign => exact h

/-- A pen that is down stays down unless it is lifted. -/
theorem penDown_run (h : t.penDown = true) (hops : .setPen false ∉ ops) :
    (t.run ops).penDown = true := by
  induction ops generalizing t with
  | nil => exact h
  | cons op ops ih =>
    rw [List.mem_cons, not_or] at hops
    obtain ⟨hop, hops⟩ := hops
    exact ih (penDown_perform h (Ne.symm hop)) hops

/-- The drawing is the trace of the turtle. Whatever has happened to a turtle, the next operation
changes the drawing as `Traced` says. While nothing is cleared the drawing only grows, and while the
pen is down the segments that arcs do not draw lead from where the turtle was to where it is. -/
theorem drawing_is_trace (t : Turtle) :
    (∀ op, Traced t (t.perform op) op) ∧
    ∀ stretch, .clear ∉ stretch →
      (t.run stretch).segments.toList = t.segments.toList ++ (t.strokes stretch).flatMap (·.2) ∧
      ((∀ front, front <+: stretch → (t.run front).penDown = true) →
        Joined t.position (((t.strokes stretch).filter (!·.1.isArc)).flatMap (·.2))
          (t.run stretch).position) :=
  ⟨traced t, fun _ hclear => ⟨segments_run hclear, joined_run hclear⟩⟩

/-- A line, an arc and the way home are drawn without lifting the pen, and the segments that are not
those of the arc join up. -/
theorem drawing_is_trace_home :
    let stretch : List Operation := [.forward 10.0, .arc 90.0 5.0, .turn 120.0, .home]
    .clear ∉ stretch ∧
    (∀ front, front <+: stretch → (({} : Turtle).run front).penDown = true) ∧
    Joined Point.origin (((({} : Turtle).strokes stretch).filter (!·.1.isArc)).flatMap (·.2))
      (({} : Turtle).run stretch).position := by
  intro stretch
  have hclear : .clear ∉ stretch := by simp [stretch]
  have hlift : .setPen false ∉ stretch := by simp [stretch]
  have hdown : ∀ front, front <+: stretch → (({} : Turtle).run front).penDown = true :=
    fun front hfront => penDown_run rfl fun hmem => hlift (hfront.subset hmem)
  exact ⟨hclear, hdown, (((drawing_is_trace {}).2 stretch hclear).2 hdown)⟩

end Turtle

end TurtleLogo
