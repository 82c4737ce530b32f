/-
# RoadNoise.Plane.Point -- places and displacements

A point has two planar coordinates and an absolute elevation.  Most geometry of
sound propagation happens on the horizontal projection, so the products of
displacements ignore the third component.
-/
import RoadNoise.Scalar

set_option autoImplicit false

namespace RoadNoise

/-- A place in a local planar coordinate system; `z` is its absolute elevation. -/
structure Point (α : Type) where
  x : α
  y : α
  z : α

/-- A way from one place to another. -/
structure Displacement (α : Type) where
  dx : α
  dy : α
  dz : α

variable {α : Type} [Scalar α]

namespace Displacement

/-- Positive where `w` turns counter-clockwise from `v`, seen from above. -/
def cross (v w : Displacement α) : α := v.dx * w.dy - v.dy * w.dx

/-- The scalar product of the horizontal parts. -/
def dot (v w : Displacement α) : α := v.dx * w.dx + v.dy * w.dy

def planarLength (v : Displacement α) : α := Scalar.hypot v.dx v.dy

def length (v : Displacement α) : α := Scalar.hypot v.planarLength v.dz

def reverse (v : Displacement α) : Displacement α := ⟨-v.dx, -v.dy, -v.dz⟩

def scale (v : Displacement α) (k : α) : Displacement α := ⟨v.dx * k, v.dy * k, v.dz * k⟩

end Displacement

/-- The way to the first point from the second. -/
instance : HSub (Point α) (Point α) (Displacement α) where
  hSub p q := ⟨p.x - q.x, p.y - q.y, p.z - q.z⟩

namespace Point

def isFinite (p : Point α) : Bool :=
  Scalar.isFinite p.x && Scalar.isFinite p.y && Scalar.isFinite p.z

/-- Both points share their planar position, whatever their elevations. -/
def samePlanar (p q : Point α) : Bool := Scalar.near p.x q.x && Scalar.near p.y q.y

def same (p q : Point α) : Bool := p.samePlanar q && Scalar.near p.z q.z

def distance (p q : Point α) : α := (q - p).length

def planarDistance (p q : Point α) : α := (q - p).planarLength

/-- The point at the same place and elevation `z`. -/
def raisedTo (p : Point α) (z : α) : Point α := ⟨p.x, p.y, z⟩

/-- The point at relative position `t` on the way from `a` to `b`. -/
def between (a b : Point α) (t : α) : Point α :=
  ⟨a.x + (b.x - a.x) * t, a.y + (b.y - a.y) * t, a.z + (b.z - a.z) * t⟩

/-- Points from west to east, and from south to north where that ties. -/
def order (p q : Point α) : Ordering :=
  (Scalar.order p.x q.x).then (Scalar.order p.y q.y)

end Point

end RoadNoise
