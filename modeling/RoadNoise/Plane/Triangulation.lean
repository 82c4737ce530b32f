/-
# RoadNoise.Plane.Triangulation -- Delaunay triangles over planar points

Points are inserted one at a time.  Each opens a cavity -- the triangles whose
circumcircle holds it -- and the cavity is filled by a fan from the new point over
the edges on the cavity's rim.  A triangle far outside starts the process and takes
its corners with it at the end.

Nothing depends on chance or on a table's layout: triangles keep the order of their
making, and a rim is walked in the order of its edges' corner numbers.
-/
import RoadNoise.Sequence
import RoadNoise.Plane.Box

set_option autoImplicit false

namespace RoadNoise

variable {α : Type} [Scalar α]

/-- Twice the signed area of a triangle, positive where it runs counter-clockwise. -/
def doubleArea (a b c : Point α) : α := (b.x - a.x) * (c.y - a.y) - (c.x - a.x) * (b.y - a.y)

/-- The weights of the corners that balance at `p`, unless the triangle is flat. -/
def balance? (p a b c : Point α) : Option (α × α × α) :=
  let area := doubleArea a b c
  if Scalar.abs area < Scalar.eps then none
  else
    let wa := doubleArea p b c / area
    let wb := doubleArea a p c / area
    some (wa, wb, 1 - wa - wb)

namespace Triangulation

structure Circle (α : Type) where
  x : α
  y : α
  /-- The square of the radius. -/
  square : α

/-- The circle through three points, unless they lie on a line. -/
def circle? (a b c : Point α) : Option (Circle α) :=
  let d := 2 * (a.x * (b.y - c.y) + b.x * (c.y - a.y) + c.x * (a.y - b.y))
  if Scalar.abs d < Scalar.eps then none
  else
    let a2 := a.x * a.x + a.y * a.y
    let b2 := b.x * b.x + b.y * b.y
    let c2 := c.x * c.x + c.y * c.y
    let x := (a2 * (b.y - c.y) + b2 * (c.y - a.y) + c2 * (a.y - b.y)) / d
    let y := (a2 * (c.x - b.x) + b2 * (a.x - c.x) + c2 * (b.x - a.x)) / d
    some ⟨x, y, Scalar.sq (a.x - x) + Scalar.sq (a.y - y)⟩

/-- The point lies in the circle, or so near to it that it counts. -/
def Circle.holds (o : Circle α) (p : Point α) : Bool :=
  Scalar.sq (o.x - p.x) + Scalar.sq (o.y - p.y) < o.square * (1 + 1e-12)

/-- A numbered point. -/
structure Corner (α : Type) where
  number : Nat
  point : Point α

structure Triangle (α : Type) where
  a : Corner α
  b : Corner α
  c : Corner α
  circle : Circle α

def Triangle.of? (a b c : Corner α) : Option (Triangle α) :=
  (circle? a.point b.point c.point).map fun o => ⟨a, b, c, o⟩

/-- A side of a triangle, in the triangle's direction. -/
abbrev Side (α : Type) := Corner α × Corner α

def Triangle.sides (t : Triangle α) : List (Side α) := [(t.a, t.b), (t.b, t.c), (t.c, t.a)]

/-- The corner numbers of a side, whatever its direction. -/
def sideKey (s : Side α) : Nat × Nat :=
  (min s.1.number s.2.number, max s.1.number s.2.number)

/-- Sides by their lesser corner number, then by the greater. -/
def sideOrder (s t : Side α) : Ordering :=
  (compare (sideKey s).1 (sideKey t).1).then (compare (sideKey s).2 (sideKey t).2)

/-- The sides that belong to one triangle only. -/
def rim (cavity : List (Triangle α)) : List (Side α) :=
  let sides := cavity.flatMap Triangle.sides
  let single := sides.filter fun s => sides.countP (fun t => sideKey t == sideKey s) == 1
  Sequence.sortOn sideOrder single

/-- The counter-clockwise triangle over a side with its tip at `p`. -/
def fan? (p : Corner α) (s : Side α) : Option (Triangle α) :=
  if 0 < doubleArea s.1.point s.2.point p.point then Triangle.of? s.1 s.2 p
  else Triangle.of? s.2 s.1 p

def insertCorner (triangles : List (Triangle α)) (p : Corner α) : List (Triangle α) :=
  let (cavity, kept) := triangles.partition fun t => t.circle.holds p.point
  if cavity.isEmpty then triangles else kept ++ (rim cavity).filterMap (fan? p)

/-- A triangle far around a rectangle, with its corners numbered from `n` on. -/
def outermost? (n : Nat) (box : Box α) : Option (Triangle α) :=
  let cx := (box.xmin + box.xmax) * 0.5
  let cy := (box.ymin + box.ymax) * 0.5
  let scale := 50 * max (max (box.xmax - box.xmin) (box.ymax - box.ymin)) 1
  Triangle.of? ⟨n, cx - scale, cy - scale, 0⟩ ⟨n + 1, cx + scale, cy - scale, 0⟩
    ⟨n + 2, cx, cy + scale, 0⟩

/-- The triangle has an area and only corners with numbers below `n`. -/
def Triangle.remains (n : Nat) (t : Triangle α) : Bool :=
  t.a.number < n && t.b.number < n && t.c.number < n &&
    Scalar.eps < Scalar.abs (doubleArea t.a.point t.b.point t.c.point)

end Triangulation

open Triangulation in
/-- The Delaunay triangles of a list of points, as triples of places in the list,
counter-clockwise.  Fewer than three points, or points on a line, have none. -/
def delaunay? (points : List (Point α)) : Option (List (Nat × Nat × Nat)) := do
  let n := points.length
  if n < 3 then none
  let box ← Box.around? points
  let start ← outermost? n box
  let corners := points.zipIdx.map fun (p, i) => (⟨i, p⟩ : Corner α)
  let made := (corners.foldl insertCorner [start]).filter (·.remains n)
  if made.isEmpty then none
  else some (made.map fun t => (t.a.number, t.b.number, t.c.number))

end RoadNoise
