import TurtleLogo.Turtle.Board

set_option autoImplicit false

/-! # The turtle

A turtle stands on a plane and looks in some direction: 0 degrees is up the second axis, and angles
grow clockwise. With its pen down, every move leaves a segment behind. It also keeps what it sounded
and how long it waited. -/

namespace TurtleLogo

/-- A point of the plane. -/
structure Point where
  x : Float
  y : Float

/-- A straight line that was drawn. -/
structure Segment where
  start : Point
  finish : Point

/-- A sound that was made. -/
structure Tone where
  frequency : Float
  seconds : Float

/-- The origin of the plane. -/
def Point.origin : Point :=
  ⟨0.0, 0.0⟩

/-- The turtle and all it has drawn and sounded. -/
structure Turtle where
  position : Point := Point.origin
  heading : Float := 0.0
  penDown : Bool := true
  /-- Whether the button of the turtle is held down. -/
  button : Bool := false
  /-- Seconds spent waiting and sounding. -/
  elapsed : Float := 0.0
  color : Option Atom := none
  segments : Array Segment := #[]
  tones : Array Tone := #[]
  board : Board := {}

namespace Turtle

/-! ## Angles -/

/-- One degree in radians. -/
def radiansPerDegree : Float :=
  0.017453292519943295

/-- One radian in degrees. -/
def degreesPerRadian : Float :=
  57.29577951308232

/-- The angle in `0 … 360` degrees that points in the same direction. -/
def normalize (angle : Float) : Float :=
  let r := Decimal.remainder angle 360
  let r := if r < 0.0 then r + 360.0 else r
  if r == 360.0 then 0.0 else r

/-- The point at a distance from `p` in the direction `angle`. -/
def pointAt (p : Point) (distance angle : Float) : Point :=
  let radians := angle * radiansPerDegree
  ⟨p.x + distance * radians.sin, p.y + distance * radians.cos⟩

/-! ## Moving -/

/-- Goes straight to a point, drawing a segment if the pen is down. -/
def moveTo (t : Turtle) (p : Point) : Turtle :=
  if t.penDown then { t with segments := t.segments.push ⟨t.position, p⟩, position := p }
  else { t with position := p }

/-- Goes a distance in the direction of the heading. -/
def forward (t : Turtle) (distance : Float) : Turtle :=
  t.moveTo (pointAt t.position distance t.heading)

/-- Takes a heading. -/
def setHeading (t : Turtle) (angle : Float) : Turtle :=
  { t with heading := normalize angle }

/-- Turns clockwise. -/
def turn (t : Turtle) (degrees : Float) : Turtle :=
  t.setHeading (t.heading + degrees)

/-- Goes to the origin and looks up. -/
def home (t : Turtle) : Turtle :=
  { t.moveTo Point.origin with heading := 0.0 }

/-- The heading from the turtle to a point. -/
def towards (t : Turtle) (p : Point) : Float :=
  normalize (Float.atan2 (p.x - t.position.x) (p.y - t.position.y) * degreesPerRadian)

/-! ## Arcs -/

/-- The sweep of an arc: an angle past a full turn is cut back to a full turn. -/
def sweep (angle : Float) : Float :=
  if angle < -360.0 then -360.0 else if angle > 360.0 then 360.0 else angle

/-- The number of segments in which an arc is drawn, one for every ten degrees begun. -/
def arcSteps (angle : Float) : Nat :=
  max (Decimal.ceilCount (sweep angle / 10.0)) 1

/-- The segments from `start` through the points `corner i`, …, `count` of them. -/
def chain (corner : Nat → Point) (start : Point) (i : Nat) : Nat → List Segment
  | 0 => []
  | count + 1 => ⟨start, corner i⟩ :: chain corner (corner i) (i + 1) count

/-- The segments of an arc around the turtle, from its heading clockwise by `angle`. -/
def arcSegments (t : Turtle) (angle radius : Float) : List Segment :=
  let steps := arcSteps angle
  let step := sweep angle / Float.ofNat steps
  let corner := fun i => pointAt t.position radius (t.heading + step * Float.ofNat i)
  chain corner (pointAt t.position radius (t.heading + 0.0)) 1 steps

/-- Draws an arc around the turtle, which does not move. -/
def arc (t : Turtle) (angle radius : Float) : Turtle :=
  if t.penDown && !(angle == 0.0) then
    { t with segments := t.segments.appendList (t.arcSegments angle radius) }
  else t

/-! ## Pen and screen -/

/-- Lowers or lifts the pen. -/
def setPen (t : Turtle) (down : Bool) : Turtle :=
  { t with penDown := down }

/-- Takes a colour. -/
def setColor (t : Turtle) (color : Atom) : Turtle :=
  { t with color := some color }

/-- Removes the drawing and puts the turtle back at the origin, looking up. -/
def clear (t : Turtle) : Turtle :=
  { t with segments := #[], position := Point.origin, heading := 0.0 }

/-! ## Time, sound and the board -/

/-- Waits; a time that is not positive is no time. -/
def wait (t : Turtle) (seconds : Float) : Turtle :=
  { t with elapsed := t.elapsed + (if seconds > 0.0 then seconds else 0.0) }

/-- Sounds a tone to its end. -/
def sound (t : Turtle) (tone : Tone) : Turtle :=
  { t with tones := t.tones.push tone }.wait tone.seconds

/-- Writes to a wired variable, if the name is one. -/
def assign (t : Turtle) (name : String) (a : Atom) : Turtle :=
  { t with board := t.board.assign name a }

end Turtle

end TurtleLogo
