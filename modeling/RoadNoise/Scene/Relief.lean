/-
# RoadNoise.Scene.Relief -- the ground as a surface of triangles

Topographic points are triangulated by their planar positions and the ground is
planar over each triangle.  Outside the triangles the relief says nothing.
-/
import RoadNoise.Plane.Crossing
import RoadNoise.Plane.Triangulation
import RoadNoise.Scene.Grid

set_option autoImplicit false

namespace RoadNoise

/-- A triangle in space. -/
structure Facet (α : Type) where
  a : Point α
  b : Point α
  c : Point α

/-- A relative position on a line and the elevation of the ground there. -/
structure Sounding (α : Type) where
  position : α
  elevation : α

variable {α : Type} [Scalar α]

namespace Facet

def box (f : Facet α) : Box α := Box.around f.a [f.b, f.c]

def sides (f : Facet α) : List (Point α × Point α) := [(f.a, f.b), (f.b, f.c), (f.c, f.a)]

/-- The elevation of the facet over the planar position of `p`, if it covers it. -/
def elevation? (f : Facet α) (p : Point α) : Option α :=
  match balance? p f.a f.b f.c with
  | some (wa, wb, wc) =>
      if -Scalar.eps ≤ wa ∧ -Scalar.eps ≤ wb ∧ -Scalar.eps ≤ wc then
        some (wa * f.a.z + wb * f.b.z + wc * f.c.z)
      else none
  | none => none

end Facet

/-- Where the line from `p` to `q` meets an edge from `a` to `b`, and the elevation
of the edge there. -/
def soundings (p q a b : Point α) : List (Sounding α) :=
  match Crossing.of p q a b with
  | .point t s => [⟨t, a.z + s * (b.z - a.z)⟩]
  | .overlap t0 t1 =>
      [t0, t1].map fun t =>
        let long := a.planarDistance b
        let s := if Scalar.eps < long then a.planarDistance (Point.between p q t) / long else 0
        ⟨t, a.z + s * (b.z - a.z)⟩
  | .none => []

structure Relief (α : Type) where
  vertices : List (Point α)
  /-- Places of corners in `vertices`. -/
  triangles : List (Nat × Nat × Nat)
  /-- The triangles in space, in their order. -/
  facets : Array (Facet α)
  grid : Grid α

namespace Relief

/-- The vertices for a set of topographic points: sorted, with one of those that
follow each other at one planar position. -/
def verticesOf (points : List (Point α)) : List (Point α) :=
  Sequence.thin Point.samePlanar (Sequence.sortOn Point.order points)

def facetOf? (vertices : Array (Point α)) (t : Nat × Nat × Nat) : Option (Facet α) := do
  return ⟨← vertices[t.1]?, ← vertices[t.2.1]?, ← vertices[t.2.2]?⟩

/-- The relief through topographic points, if they span an area. -/
def ofPoints? (points : List (Point α)) : Option (Relief α) := do
  let vertices := verticesOf points
  let triangles ← delaunay? vertices
  let facets := triangles.filterMap (facetOf? vertices.toArray)
  return ⟨vertices, triangles, facets.toArray, Grid.ofBoxes (facets.map Facet.box)⟩

/-- The elevation of the ground, if a triangle covers the place. -/
def elevation? (r : Relief α) (x y : α) : Option α :=
  let p : Point α := ⟨x, y, 0⟩
  (r.grid.atPoint p).findSome? fun k => r.facets[k]?.bind (·.elevation? p)

/-- Where the line from `p` to `q` crosses edges of triangles, by position. -/
def crossings (r : Relief α) (p q : Point α) : List (Sounding α) :=
  let met := (r.grid.along p q).flatMap fun k =>
    match r.facets[k]? with
    | some f => f.sides.flatMap fun (a, b) => soundings p q a b
    | none => []
  Sequence.thin (fun s t => Scalar.near s.position t.position)
    (Sequence.sortOn (fun s t => Scalar.order s.position t.position) met)

end Relief

end RoadNoise
