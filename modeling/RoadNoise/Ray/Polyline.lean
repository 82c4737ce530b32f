/-
# RoadNoise.Ray.Polyline -- ways through several points
-/
import RoadNoise.Sequence
import RoadNoise.Plane.Point

set_option autoImplicit false

namespace RoadNoise.Polyline

variable {α : Type} [Scalar α]

/-- The length of a way in space. -/
def length (way : List (Point α)) : α :=
  Scalar.sum ((Sequence.adjacent way).map fun (p, q) => p.distance q)

/-- The length of the horizontal projection of a way. -/
def planarLength (way : List (Point α)) : α :=
  Scalar.sum ((Sequence.adjacent way).map fun (p, q) => p.planarDistance q)

/-- The points between the first and the last. -/
def inner (way : List (Point α)) : List (Point α) := way.tail.dropLast

/-- Elevations for the points after `last`, which lies `run` metres from the start;
`rise` gives the elevation by the metres from the start. -/
def gradeAfter (rise : α → α) (run : α) (last : Point α) : List (Point α) → List (Point α)
  | [] => []
  | p :: rest =>
      let run := run + last.planarDistance p
      p.raisedTo (rise run) :: gradeAfter rise run p rest

/-- The way with elevations that rise evenly from its first point to its last. -/
def graded (way : List (Point α)) : List (Point α) :=
  match way with
  | [] => []
  | first :: rest =>
      let last := rest.getLastD first
      let total := planarLength way
      if total ≤ 0 then way
      else first :: gradeAfter (fun run => first.z + run / total * (last.z - first.z)) 0 first rest

end RoadNoise.Polyline
