/-
# RoadNoise.Scene.Cut -- the scene along a vertical plane

The cut from one point to another lists, by distance, what the vertical plane
between them meets: ground elevations, walls of buildings, changes of the ground's
absorption.  Between two ground elevations the ground is planar, and between two
changes its absorption is constant.
-/
import RoadNoise.Scene.Basic

set_option autoImplicit false

namespace RoadNoise

/-- What is met at a place of a cut. -/
inductive MarkKind (α : Type) where
  /-- An elevation of the ground. -/
  | ground
  /-- The wall of a building, on the way in or out. -/
  | wall (building : Nat) (roof : α) (entering : Bool)
  /-- A new absorption of the ground, from here on. -/
  | factor (g : α)

/-- Something met on a cut; the position has the elevation of the ground there. -/
structure Mark (α : Type) where
  distance : α
  position : Point α
  kind : MarkKind α

/-- A part of a line and the absorption of its ground. -/
structure Span (α : Type) where
  length : α
  factor : α

structure Cut (α : Type) where
  p1 : Point α
  p2 : Point α
  /-- The absorption of the ground at the start. -/
  startFactor : α
  /-- The number of buildings around the start. -/
  startInside : Nat
  /-- What is met, by distance. -/
  marks : List (Mark α)

variable {α : Type} [Scalar α]

/-! ## Parts inside an outline -/

/-- Joins a part that is being built, from `a` to `b`, with those that follow. -/
def joinFrom (a b : α) : List (α × α) → List (α × α)
  | [] => [(a, b)]
  | (c, d) :: rest =>
      if Scalar.near b c then joinFrom a d rest else (a, b) :: joinFrom c d rest

/-- Joins parts that continue each other. -/
def joinParts : List (α × α) → List (α × α)
  | [] => []
  | (a, b) :: rest => joinFrom a b rest

/-- Relative positions in order, each once up to the tolerance. -/
def tidyPositions (ts : List α) : List α :=
  Sequence.thin Scalar.near (Sequence.sortOn Scalar.order ts)

namespace Polygon

/-- The parts of the segment from `p` to `q` that lie inside, in order.  Between two
boundary crossings a segment is inside or outside as a whole, so its middle
decides. -/
def insideParts (polygon : Polygon α) (p q : Point α) : List (α × α) :=
  let ts := tidyPositions ((0 : α) :: polygon.boundaryCrossings p q ++ [1])
  joinParts <| (Sequence.adjacent ts).filter fun (a, b) =>
    polygon.contains (Point.between p q (0.5 * (a + b)))

end Polygon

/-! ## Cutting -/

namespace Scene

/-- The ground at a relative position between two points. -/
def groundPoint (s : Scene α) (p q : Point α) (t : α) : Point α :=
  let m := Point.between p q t
  m.raisedTo (s.elevation m.x m.y)

/-- The elevations of the ground along a cut: its ends, and the places between where
the slope may change. -/
def groundMarks (s : Scene α) (p q : Point α) : List (Mark α) :=
  let inner := match s.relief with
    | some r => (r.crossings p q).filter fun k =>
        decide (Scalar.eps < k.position) && decide (k.position < 1 - Scalar.eps)
    | none => []
  let all := (⟨0, s.elevation p.x p.y⟩ : Sounding α) :: inner ++ [⟨1, s.elevation q.x q.y⟩]
  all.map fun k =>
    ⟨k.position * p.planarDistance q, (Point.between p q k.position).raisedTo k.elevation, .ground⟩

/-- The parts of the segment from `p` to `q` inside the buildings it may meet, with
the building's number and roof. -/
def insideBuildings (s : Scene α) (p q : Point α) : List (Nat × α × (α × α)) :=
  (s.buildingGrid.along p q).flatMap fun b =>
    match s.buildings[b]?, s.roofs[b]? with
    | some building, some roof =>
        (building.outline.insideParts p q).map fun part => (b, roof, part)
    | _, _ => []

/-- The walls met by a part that lies inside a building.  A part that begins with
the segment has no wall there, and neither has one that ends with it. -/
def wallMarks (s : Scene α) (p q : Point α) (inside : Nat × α × (α × α)) : List (Mark α) :=
  let (b, roof, ta, tb) := inside
  let mark (t : α) (entering : Bool) : Mark α :=
    ⟨t * p.planarDistance q, s.groundPoint p q t, .wall b roof entering⟩
  (if ta ≤ Scalar.eps then [] else [mark ta true])
    ++ (if tb < 1 - Scalar.eps then [mark tb false] else [])

/-- The absorption of the ground in the middle of a part of a segment. -/
def partFactor (s : Scene α) (p q : Point α) (part : α × α) : α :=
  s.groundFactor (Point.between p q (0.5 * (part.1 + part.2)))

/-- The changes of absorption where `current` holds before the given parts. -/
def factorMarks (s : Scene α) (p q : Point α) (current : α) : List (α × α) → List (Mark α)
  | [] => []
  | part :: rest =>
      let g := s.partFactor p q part
      if Scalar.eps < Scalar.abs (g - current) then
        ⟨part.1 * p.planarDistance q, s.groundPoint p q part.1, .factor g⟩
          :: s.factorMarks p q g rest
      else s.factorMarks p q current rest

/-- The parts of a segment between the boundaries of the ground areas it may meet. -/
def groundParts (s : Scene α) (p q : Point α) : List (α × α) :=
  let met := (s.areaGrid.along p q).flatMap fun a =>
    match s.areas[a]? with
    | some area => area.outline.boundaryCrossings p q
    | none => []
  Sequence.adjacent (tidyPositions ([(0 : α), 1] ++ met))

/-- The cut from `p` to `q`. -/
def cut (s : Scene α) (p q : Point α) : Cut α :=
  let inside := s.insideBuildings p q
  let parts := s.groundParts p q
  let startFactor := match parts with
    | part :: _ => s.partFactor p q part
    | [] => s.groundFactor p
  let marks := s.groundMarks p q ++ inside.flatMap (s.wallMarks p q)
    ++ s.factorMarks p q startFactor parts.tail
  { p1 := p
    p2 := q
    startFactor := startFactor
    startInside := inside.countP fun (_, _, ta, _) => decide (ta ≤ Scalar.eps)
    marks := Sequence.sortOn (fun a b => Scalar.order a.distance b.distance) marks }

end Scene

/-! ## Reading a cut -/

namespace Mark

def isGround (m : Mark α) : Bool :=
  match m.kind with
  | .ground => true
  | _ => false

def isWall (m : Mark α) : Bool :=
  match m.kind with
  | .wall _ _ _ => true
  | _ => false

end Mark

namespace Cut

/-- The planar length. -/
def length (c : Cut α) : α := c.p1.planarDistance c.p2

def walls (c : Cut α) : List (Mark α) := c.marks.filter Mark.isWall

/-- The elevation of the straight line between the two points. -/
def lineElevation (c : Cut α) (distance : α) : α :=
  if 0 < c.length then c.p1.z + distance / c.length * (c.p2.z - c.p1.z) else c.p1.z

/-- The mark lies between the two ends. -/
def isInner (c : Cut α) (m : Mark α) : Bool :=
  decide (Scalar.eps < m.distance) && decide (m.distance < c.length - Scalar.eps)

/-- The elevations of the ground between the ends that stand above the straight
line.  The ground is planar between marks, so it hides the line only there. -/
def groundAboveLine (c : Cut α) : List (Mark α) :=
  c.marks.filter fun m =>
    m.isGround && c.isInner m
      && decide (c.lineElevation m.distance + Scalar.eps < m.position.z)

/-- The elevation of the ground at `distance`, which lies beyond the mark `a`. -/
def groundAfter (distance : α) (a : Mark α) : List (Mark α) → α
  | [] => a.position.z
  | b :: rest =>
      if distance ≤ b.distance then
        let run := b.distance - a.distance
        if run < Scalar.eps then b.position.z
        else a.position.z + (distance - a.distance) / run * (b.position.z - a.position.z)
      else groundAfter distance b rest

/-- The elevation of the ground at a distance from the start. -/
def groundElevation (c : Cut α) (distance : α) : α :=
  match c.marks.filter Mark.isGround with
  | [] => 0
  | a :: rest => if distance ≤ a.distance then a.position.z else groundAfter distance a rest

/-- The spans over the marks that are left, after `last` metres, on ground of
absorption `g` and inside of `inside` buildings. -/
def spansFrom (length : α) (g : α) (inside : Nat) (last : α) : List (Mark α) → List (Span α)
  | [] => if last < length then [⟨length - last, if 0 < inside then 0 else g⟩] else []
  | m :: rest =>
      let next (g' : α) (inside' : Nat) : List (Span α) :=
        if last < m.distance then
          ⟨m.distance - last, if 0 < inside then 0 else g⟩
            :: spansFrom length g' inside' m.distance rest
        else spansFrom length g' inside' last rest
      match m.kind with
      | .ground => spansFrom length g inside last rest
      | .factor g' => next g' inside
      | .wall _ _ true => next g (inside + 1)
      | .wall _ _ false => next g (inside - 1)

/-- The absorption of the ground along the cut; under a building it is hard. -/
def spans (c : Cut α) : List (Span α) :=
  spansFrom c.length c.startFactor c.startInside 0 c.marks

end Cut

/-! ## Sight -/

namespace Scene

/-- The buildings that the segment from `p` to `q` passes through below the roof.  A
wall that is only touched at an end does not count. -/
def obstructing (s : Scene α) (p q : Point α) : List Nat :=
  let z (t : α) : α := p.z + t * (q.z - p.z)
  (s.buildingGrid.along p q).filter fun b =>
    match s.buildings[b]?, s.roofs[b]? with
    | some building, some roof =>
        (building.outline.insideParts p q).any fun (ta, tb) =>
          decide (min (z ta) (z tb) < roof - Scalar.eps)
    | _, _ => false

/-- The ground stands above the segment somewhere between its ends. -/
def hides (s : Scene α) (p q : Point α) : Bool := !(s.cut p q).groundAboveLine.isEmpty

/-- A building or the ground blocks the line of sight. -/
def obstructed (s : Scene α) (p q : Point α) : Bool :=
  !(s.obstructing p q).isEmpty || s.hides p q

end Scene

end RoadNoise
