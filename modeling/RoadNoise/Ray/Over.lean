/-
# RoadNoise.Ray.Over -- over roofs and ground

In the vertical plane of the direct line sound bends over crests: the tops of walls
and the vertices of the ground.  The direct path is screened by the one crest that
takes it farthest from the straight line; the path over the top follows a string
pulled taut over all of them.
-/
import RoadNoise.Plane.Hull
import RoadNoise.Ray.Path

set_option autoImplicit false

namespace RoadNoise

variable {α : Type} [Scalar α]

namespace Cut

/-- Where sound may bend: distances and elevations of wall tops, and of the ground
between the two ends. -/
def crests (c : Cut α) : List (α × α) :=
  c.marks.filterMap fun m =>
    match m.kind with
    | .wall _ roof _ => some (m.distance, roof)
    | .ground => if c.isInner m then some (m.distance, m.position.z) else none
    | .factor _ => none

/-- The point in the plane of the cut at a distance from its start. -/
def pointAt (c : Cut α) (distance z : α) : Point α :=
  let t := if 0 < c.length then distance / c.length else 0
  (Point.between c.p1 c.p2 t).raisedTo z

/-- The greater of two detours, by their excess; the second one where that ties. -/
def greaterDetour (a b : Detour α) : Detour α :=
  if Scalar.order a.delta b.delta = .gt then a else b

/-- The detour over the one crest that screens the direct line most, if any crest
stands above it. -/
def screening (c : Cut α) (directLength : α) : Option (Detour α) :=
  let above := c.crests.filter fun (d, z) => decide (c.lineElevation d + Scalar.eps < z)
  let detours := above.map fun (d, z) =>
    Detour.ofWay [c.p1, c.pointAt d z, c.p2] directLength
  match detours with
  | [] => none
  | first :: rest => some (rest.foldl greaterDetour first)

/-- The ends of the cut and the crests between them, as distances and elevations. -/
def profilePoints (c : Cut α) : List (α × α) :=
  ((0 : α), c.p1.z) :: c.crests ++ [(c.length, c.p2.z)]

/-- The shortest way over all crests. -/
def tautWay (c : Cut α) : List (Point α) :=
  let points := c.profilePoints.toArray
  (Hull.taut c.profilePoints).filterMap fun i =>
    points[i]?.map fun (d, z) => c.pointAt d z

/-- The path over the top, if the shortest way bends at all. -/
def topPath (c : Cut α) (directLength : α) (footing : Footing α) : Option (Path α) :=
  let way := c.tautWay
  if way.length < 3 then none
  else some
    { kind := .top
      events := bentEvents c.p1 c.p2 (Polyline.inner way)
      length := Polyline.length way
      directLength := directLength
      detour := some (Detour.ofWay way directLength)
      footing := footing }

end Cut

end RoadNoise
