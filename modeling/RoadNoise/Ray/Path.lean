/-
# RoadNoise.Ray.Path -- how sound gets from a source to a receiver

A path is direct, bent over or around obstacles, or reflected by walls.  Besides its
course it carries what its attenuation depends on: its length and that of the direct
line, the detour over edges, and the ground that it passes over.
-/
import RoadNoise.Ray.Polyline
import RoadNoise.Scene.Cut

set_option autoImplicit false

namespace RoadNoise

inductive PathKind where
  | direct
  /-- Over roofs and ground in the vertical plane of the direct line. -/
  | top
  /-- Around the left side of the obstacles, seen from the source. -/
  | left
  /-- Around the right side of the obstacles, seen from the source. -/
  | right
  /-- By way of as many walls. -/
  | reflected (order : Nat)
  deriving DecidableEq

/-- What happens to a path at a point. -/
inductive PathEvent (α : Type) where
  | source (at_ : Point α)
  | diffraction (at_ : Point α)
  | reflection (at_ : Point α) (wall : Nat) (absorption : α)
  | receiver (at_ : Point α)

/-- The way over diffracting edges beside the direct line. -/
structure Detour (α : Type) where
  /-- Metres that the way is longer than the direct line. -/
  delta : α
  /-- Metres from the first edge to the last. -/
  spread : α
  /-- Metres that it is longer where rays bend down. -/
  favourableDelta : α

/-- The ground under a path, along its unfolded horizontal projection. -/
structure Footing (α : Type) where
  /-- Metres of the source above the ground. -/
  sourceHeight : α
  /-- Metres of the receiver above the ground. -/
  receiverHeight : α
  spans : List (Span α)
  /-- The factor of the ground near the source, where it is set. -/
  sourceFactor : Option α

structure Path (α : Type) where
  kind : PathKind
  /-- From the source to the receiver. -/
  events : List (PathEvent α)
  length : α
  directLength : α
  detour : Option (Detour α)
  footing : Footing α

/-- Which paths are looked for. -/
structure PathOptions (α : Type) where
  /-- Around obstacles. -/
  horizontal : Bool
  /-- Over obstacles. -/
  vertical : Bool
  maxOrder : Nat
  /-- The factor set for the ground near the source. -/
  sourceFactor : Option α
  /-- Walls farther than this from both ends do not reflect. -/
  maxReflectionDistance : α

variable {α : Type} [Scalar α]

namespace PathOptions

/-- Over obstacles, but neither around them nor by way of walls. -/
def standard : PathOptions α := ⟨false, true, 0, none, 50⟩

end PathOptions

namespace PathEvent

def position : PathEvent α → Point α
  | .source p | .diffraction p | .reflection p _ _ | .receiver p => p

def absorption? : PathEvent α → Option α
  | .reflection _ _ a => some a
  | _ => none

end PathEvent

namespace Detour

/-- A way whose rays bend in the vertical plane only: its excess is the same under
all conditions. -/
def level (delta spread : α) : Detour α := ⟨delta, spread, delta⟩

/-- The length of an arc of the given radius over a chord. -/
def arc (radius chord : α) : α := 2 * radius * Scalar.asin (min (chord / (2 * radius)) 1)

/-- The way over the inner points of a polyline in a vertical plane.  Where rays bend
down, every leg and the direct line are arcs, of a radius of a kilometre or of eight
times the direct line. -/
def ofWay (way : List (Point α)) (directLength : α) : Detour α :=
  let radius := max 1000 (8 * directLength)
  let curved := Scalar.sum
    ((Sequence.adjacent way).map fun (p, q) => arc radius (p.distance q))
  { delta := Polyline.length way - directLength
    spread := if way.length ≤ 3 then 0 else Polyline.length (Polyline.inner way)
    favourableDelta := curved - arc radius directLength }

end Detour

namespace Footing

/-- The length of the horizontal projection of the path. -/
def length (f : Footing α) : α := Scalar.sum (f.spans.map Span.length)

end Footing

namespace Scene

/-- Metres of a point above the ground, not below zero. -/
def heightAbove (s : Scene α) (p : Point α) : α := max (p.z - s.elevation p.x p.y) 0

/-- The ground along a way from a source to a receiver. -/
def footing (s : Scene α) (way : List (Point α)) (sourceFactor : Option α) : Footing α :=
  { sourceHeight := (way.head?.map s.heightAbove).getD 0
    receiverHeight := (way.getLast?.map s.heightAbove).getD 0
    spans := (Sequence.adjacent way).flatMap fun (p, q) => (s.cut p q).spans
    sourceFactor := sourceFactor }

end Scene

/-- The events of a way from its first to its last point, bent at those between. -/
def bentEvents (source receiver : Point α) (edges : List (Point α)) : List (PathEvent α) :=
  .source source :: edges.map .diffraction ++ [.receiver receiver]

end RoadNoise
