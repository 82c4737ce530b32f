/-
# RoadNoise.Ray.Reflection -- by way of walls

A path over a sequence of walls is found from the images of the source, each the
image of the one before in the next wall, by walking back from the receiver: towards
the last image up to the last wall, from there towards the image before, and so on.
The sequence reflects when every such walk meets its wall, below the roof, and no leg
is obstructed.

Sequences are visited by length, then in the order of their wall numbers; no wall
comes twice in a row, and each must have the image before it on its outer side.
-/
import RoadNoise.Ray.Path

set_option autoImplicit false

namespace RoadNoise

/-- A wall of a sequence and the image of the source in all walls up to it. -/
structure Bounce (α : Type) where
  number : Nat
  wall : Wall α
  image : Point α

variable {α : Type} [Scalar α]

/-- The distance from a wall at which its two sides are told apart. -/
def sideStep : α := 1e-3

/-- The reflection points of a sequence, first wall first, for a walk back from
`target`; the sequence has its last wall first. -/
def walkBack (target : Point α) : List (Bounce α) → Option (List (Point α))
  | [] => some []
  | b :: earlier =>
      match Crossing.of target b.image b.wall.p0 b.wall.p1 with
      | .point t _ =>
          if Scalar.eps < t ∧ t < 1 - Scalar.eps then
            let p := Point.between target b.image t
            (walkBack p earlier).map (· ++ [p])
          else none
      | _ => none

namespace Scene

/-- The point lies on the outer side of the wall. -/
def faces (s : Scene α) (wall : Wall α) (p : Point α) : Bool :=
  let side := p.sideOf wall.p0 wall.p1
  if Scalar.abs side < Scalar.eps then false
  else
    let middle := Point.between wall.p0 wall.p1 0.5
    let dx := wall.p1.x - wall.p0.x
    let dy := wall.p1.y - wall.p0.y
    let length := Scalar.hypot dx dy
    let sign := Scalar.sign side
    let beside : Point α :=
      ⟨middle.x - sign * dy / length * sideStep, middle.y + sign * dx / length * sideStep, middle.z⟩
    match s.buildings[wall.building]? with
    | some building => !building.outline.contains beside
    | none => true

/-- The next wall of a sequence, if it faces the image so far and has an image of it. -/
def bounce? (s : Scene α) (image : Point α) (number : Nat) (wall : Wall α) :
    Option (Bounce α) :=
  if s.faces wall image then (image.image? wall.p0 wall.p1).map fun next => ⟨number, wall, next⟩
  else none

/-- The point lies below the roof that the wall carries. -/
def belowRoof (s : Scene α) (wall : Wall α) (p : Point α) : Bool :=
  match s.roofs[wall.building]? with
  | some roof => !decide (roof ≤ p.z)
  | none => false

/-- The way from the source over a sequence of walls, last wall first, to the
receiver, with elevations that rise evenly; none if a wall is missed, the way passes
above a roof, or a leg is obstructed. -/
def unfoldedWay? (s : Scene α) (source receiver : Point α) (sequence : List (Bounce α)) :
    Option (List (Point α)) :=
  match walkBack receiver sequence with
  | none => none
  | some points =>
      let way := Polyline.graded (source :: points ++ [receiver])
      let low := (sequence.reverse.zip (Polyline.inner way)).all fun (b, p) => s.belowRoof b.wall p
      let free := (Sequence.adjacent way).all fun (p, q) => !s.obstructed p q
      if low && free then some way else none

/-- The path over a sequence of walls, last wall first. -/
def reflectedPath? (s : Scene α) (source receiver : Point α) (sourceFactor : Option α)
    (sequence : List (Bounce α)) : Option (Path α) :=
  (s.unfoldedWay? source receiver sequence).map fun way =>
    let reflections := (sequence.reverse.zip (Polyline.inner way)).map fun (b, p) =>
      PathEvent.reflection p b.number b.wall.absorption
    { kind := .reflected sequence.length
      events := .source source :: reflections ++ [.receiver receiver]
      length := Polyline.length way
      directLength := source.distance receiver
      detour := none
      footing := s.footing way sourceFactor }

/-- The next bounce of a sequence: off another wall than the last one, which faces the
last image and has an image of it. -/
def extension? (s : Scene α) (source : Point α) (sequence : List (Bounce α)) (number : Nat)
    (wall : Wall α) : Option (Bounce α) :=
  if (sequence.head?.map Bounce.number) == some number then none
  else s.bounce? ((sequence.head?.map Bounce.image).getD source) number wall

/-- Visits the sequences that continue `sequence` by as many walls, and collects what
`emit` makes of them.  The sequence is a stack: a bounce is put on it, the visit goes on
from there, and the bounce is taken off the stack that comes back. -/
def visit {β : Type} (s : Scene α) (candidates : List (Nat × Wall α)) (source : Point α)
    (emit : List (Bounce α) → List β) : Nat → List (Bounce α) → List β × List (Bounce α)
  | 0, sequence => (emit sequence, sequence)
  | more + 1, sequence =>
      candidates.foldl (fun (found, sequence) (number, wall) =>
        match s.extension? source sequence number wall with
        | some b =>
            let (deeper, sequence) := s.visit candidates source emit more (b :: sequence)
            (found ++ deeper, sequence.tail)
        | none => (found, sequence)) ([], sequence)

/-- The walls that may reflect: near to one of the ends, and not swallowing all. -/
def reflectors (s : Scene α) (source receiver : Point α) (distance : α) :
    List (Nat × Wall α) :=
  let near := Sequence.ascending (s.wallsNear source distance ++ s.wallsNear receiver distance)
  near.filterMap fun w =>
    match s.walls[w]? with
    | some wall => if wall.absorption < 1 then some (w, wall) else none
    | none => none

/-- The paths by way of walls, by the number of walls and then by the walls' numbers. -/
def reflectedPaths (s : Scene α) (source receiver : Point α) (options : PathOptions α) :
    List (Path α) :=
  if options.maxOrder = 0 then []
  else
    let candidates := s.reflectors source receiver options.maxReflectionDistance
    let emit (sequence : List (Bounce α)) : List (Path α) :=
      (s.reflectedPath? source receiver options.sourceFactor sequence).toList
    (List.range options.maxOrder).flatMap fun n => (s.visit candidates source emit (n + 1) []).1

end Scene

end RoadNoise
