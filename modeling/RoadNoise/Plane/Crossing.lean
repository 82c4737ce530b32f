/-
# RoadNoise.Plane.Crossing -- where two segments meet

Segments are taken by their horizontal projections.  `Crossing.of` tells a single
common point from an overlap along a common line; positions are relative to the
segments and held to their ends.
-/
import RoadNoise.Plane.Point

set_option autoImplicit false

namespace RoadNoise

/-- How two segments meet. -/
inductive Crossing (α : Type) where
  /-- In one point, `t` along the first and `s` along the second. -/
  | point (t s : α)
  /-- On the part from `t0` to `t1` of the first. -/
  | overlap (t0 t1 : α)
  | none

variable {α : Type} [Scalar α]

namespace Crossing

/-- How parallel segments meet: `d` runs along the first, `r` leads from its start
to the start of the second and `r'` to the end of the second. -/
def ofParallel (d r r' : Displacement α) : Crossing α :=
  let square := d.dot d
  if Scalar.eps * max (Scalar.sqrt square) 1 < Scalar.abs (r.cross d) ||
      square < Scalar.eps * Scalar.eps then .none
  else
    let t3 := r.dot d / square
    let t4 := r'.dot d / square
    let t0 := max (min t3 t4) 0
    let t1 := min (max t3 t4) 1
    if t1 + Scalar.eps < t0 then .none else .overlap t0 t1

/-- How the segment from `p1` to `p2` meets the segment from `p3` to `p4`. -/
def of (p1 p2 p3 p4 : Point α) : Crossing α :=
  let d1 := p2 - p1
  let d2 := p4 - p3
  let r := p3 - p1
  let turn := d1.cross d2
  if Scalar.abs turn < Scalar.eps * max (d1.dot d1) 1 then ofParallel d1 r (p4 - p1)
  else
    let t := r.cross d2 / turn
    let s := r.cross d1 / turn
    if Scalar.within (-Scalar.eps) (1 + Scalar.eps) t &&
        Scalar.within (-Scalar.eps) (1 + Scalar.eps) s then
      .point (Scalar.clamp 0 1 t) (Scalar.clamp 0 1 s)
    else .none

/-- The positions on the first segment that bound what is common. -/
def positions : Crossing α → List α
  | .point t _ => [t]
  | .overlap t0 t1 => [t0, t1]
  | .none => []

end Crossing

namespace Point

/-- Positive where `p` lies to the left of the line from `a` to `b`. -/
def sideOf (p a b : Point α) : α := (b - a).cross (p - a)

/-- The planar distance from `p` to the segment from `a` to `b`. -/
def distanceToSegment (p a b : Point α) : α :=
  let ab := b - a
  let square := ab.dot ab
  if square < Scalar.eps * Scalar.eps then p.planarDistance a
  else p.planarDistance (between a b (Scalar.clamp 0 1 ((p - a).dot ab / square)))

/-- The image of `p` in the vertical plane through `a` and `b`, at its own
elevation.  Two points that coincide span no plane. -/
def image? (p a b : Point α) : Option (Point α) :=
  let ab := b - a
  let square := ab.dot ab
  if square < Scalar.eps * Scalar.eps then none
  else
    let t := (p - a).dot ab / square
    some ⟨2 * (a.x + t * ab.dx) - p.x, 2 * (a.y + t * ab.dy) - p.y, p.z⟩

end Point

end RoadNoise
