/-
# RoadNoise.Plane.Box -- upright rectangles around things
-/
import RoadNoise.Plane.Point

set_option autoImplicit false

namespace RoadNoise

/-- A rectangle with its sides along the axes. -/
structure Box (α : Type) where
  xmin : α
  ymin : α
  xmax : α
  ymax : α

namespace Box

variable {α : Type} [Scalar α]

def expand (b : Box α) (p : Point α) : Box α :=
  ⟨min b.xmin p.x, min b.ymin p.y, max b.xmax p.x, max b.ymax p.y⟩

/-- The rectangle around `p` and `ps`. -/
def around (p : Point α) (ps : List (Point α)) : Box α :=
  ps.foldl expand ⟨p.x, p.y, p.x, p.y⟩

/-- The rectangle around all points, if there are any. -/
def around? : List (Point α) → Option (Box α)
  | [] => none
  | p :: ps => some (around p ps)

def ofSegment (p q : Point α) : Box α :=
  ⟨min p.x q.x, min p.y q.y, max p.x q.x, max p.y q.y⟩

/-- The rectangle around two. -/
def join (a b : Box α) : Box α :=
  ⟨min a.xmin b.xmin, min a.ymin b.ymin, max a.xmax b.xmax, max a.ymax b.ymax⟩

/-- The rectangle grown by `margin` on every side. -/
def inflate (b : Box α) (margin : α) : Box α :=
  ⟨b.xmin - margin, b.ymin - margin, b.xmax + margin, b.ymax + margin⟩

/-- The point lies in the rectangle, up to the tolerance. -/
def holds (b : Box α) (p : Point α) : Bool :=
  b.xmin - Scalar.eps ≤ p.x && p.x ≤ b.xmax + Scalar.eps &&
    (b.ymin - Scalar.eps ≤ p.y && p.y ≤ b.ymax + Scalar.eps)

/-- The rectangles share a point, up to the tolerance. -/
def overlaps (a b : Box α) : Bool :=
  !(a.xmax < b.xmin - Scalar.eps || b.xmax + Scalar.eps < a.xmin ||
    (a.ymax < b.ymin - Scalar.eps || b.ymax + Scalar.eps < a.ymin))

/-- The planar distance from a point to the rectangle; zero inside. -/
def distanceTo (b : Box α) (p : Point α) : α :=
  Scalar.hypot (max (max (b.xmin - p.x) 0) (p.x - b.xmax))
    (max (max (b.ymin - p.y) 0) (p.y - b.ymax))

end Box

end RoadNoise
