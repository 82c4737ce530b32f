/-
# RoadNoise.Plane.Polygon -- outlines with holes

A polygon is an outer ring and holes, each a list of vertices without a closing
one.  `Polygon.ofRings` cleans rings and refuses those that bound nothing; what it
accepts has at least three vertices in each ring, none on top of its neighbour.

Whether a point lies inside is decided by parity: a ray to the east from an inner
point meets an odd number of edges.  An edge is met when exactly one of its ends
lies above the ray, so a vertex on the ray counts for one of its two edges.
-/
import RoadNoise.Fault
import RoadNoise.Sequence
import RoadNoise.Plane.Box
import RoadNoise.Plane.Crossing

set_option autoImplicit false

namespace RoadNoise

/-- An edge, from its first vertex to its second. -/
abbrev Edge (α : Type) := Point α × Point α

structure Polygon (α : Type) where
  outer : List (Point α)
  holes : List (List (Point α))
  /-- The rectangle around the outer ring. -/
  box : Box α

variable {α : Type} [Scalar α]

/-! ## Rings -/

namespace Ring

/-- Twice over, the area of the parallelogram under each edge: the signed area of a
ring, positive where it runs counter-clockwise. -/
def area (ring : List (Point α)) : α :=
  0.5 * Scalar.sum ((Sequence.cyclic ring).map fun (a, b) => a.x * b.y - b.x * a.y)

/-- The ring without a last vertex that repeats the first. -/
def opened (ring : List (Point α)) : List (Point α) :=
  match ring.head?, ring.getLast? with
  | some a, some b => if 1 < ring.length && a.samePlanar b then ring.dropLast else ring
  | _, _ => ring

/-- A ring without repeated neighbours, if it has three vertices left. -/
def clean (what : String) (ring : List (Point α)) : Outcome α (List (Point α)) := do
  require (ring.all Point.isFinite) (.invalid (.strayCoordinate what))
  let kept := opened (Sequence.thin Point.samePlanar ring)
  require (3 ≤ kept.length) (.invalid (.tooFew what 3 "vertices" kept.length))
  return kept

end Ring

/-! ## Polygons -/

namespace Polygon

/-- Cleans the holes, which messages number from `i` on. -/
def cleanHoles (i : Nat) : List (List (Point α)) → Outcome α (List (List (Point α)))
  | [] => return []
  | hole :: rest => do
      let kept ← Ring.clean s!"hole {i}" hole
      return kept :: (← cleanHoles (i + 1) rest)

def ofRings (outer : List (Point α)) (holes : List (List (Point α))) :
    Outcome α (Polygon α) := do
  let outer ← Ring.clean "outer ring" outer
  let holes ← cleanHoles 0 holes
  require (!(Scalar.abs (Ring.area outer) < Scalar.eps))
    (.invalid (.stated "polygon outer ring has zero area"))
  match Box.around? outer with
  | some box => return ⟨outer, holes, box⟩
  | none => throw (.invalid (.stated "polygon outer ring is empty"))

/-- The rectangle with the given opposite corners. -/
def rectangle (xmin ymin xmax ymax : α) : Outcome α (Polygon α) :=
  ofRings [⟨xmin, ymin, 0⟩, ⟨xmax, ymin, 0⟩, ⟨xmax, ymax, 0⟩, ⟨xmin, ymax, 0⟩] []

/-- All rings, the outer one first. -/
def rings (p : Polygon α) : List (List (Point α)) := p.outer :: p.holes

def vertices (p : Polygon α) : List (Point α) := p.rings.flatten

def edges (p : Polygon α) : List (Edge α) := p.rings.flatMap Sequence.cyclic

/-- The area of the outer ring without the holes. -/
def area (p : Polygon α) : α :=
  Scalar.abs (Ring.area p.outer) - Scalar.sum (p.holes.map fun h => Scalar.abs (Ring.area h))

/-- The ray from `p` to the east meets the edge. -/
def meetsRay (p : Point α) (edge : Edge α) : Bool :=
  let (a, b) := edge
  (decide (p.y < b.y) != decide (p.y < a.y)) &&
    p.x < a.x + (p.y - a.y) / (b.y - a.y) * (b.x - a.x)

/-- The point lies inside; a point on an edge goes to one of its two sides. -/
def contains (polygon : Polygon α) (p : Point α) : Bool :=
  polygon.box.holds p && polygon.edges.countP (meetsRay p) % 2 == 1

/-- Where the segment from `p` to `q` meets the boundary, as relative positions in
increasing order. -/
def boundaryCrossings (polygon : Polygon α) (p q : Point α) : List α :=
  if polygon.box.overlaps (Box.ofSegment p q) then
    let met := polygon.edges.flatMap fun (a, b) => (Crossing.of p q a b).positions
    Sequence.thin Scalar.near (Sequence.sortOn Scalar.order met)
  else []

end Polygon

end RoadNoise
