/-
# RoadNoise.Proofs.Scan -- answers without a grid

A scene answers by its grids: it asks the areas, buildings and walls that a grid
finds.  The plain answers of this module ask all of them in turn.
-/
import RoadNoise.Proofs.Exact
import RoadNoise.Proofs.Sequence
import RoadNoise.Scene.Cut

set_option autoImplicit false

namespace RoadNoise

namespace Scene

section Plain

variable {α : Type} [Scalar α]

/-! ## Plain answers -/

/-- The factor of one ground area, if it holds the place. -/
def factorIn (s : Scene α) (p : Point α) (i : Nat) : Option α :=
  match s.areas[i]? with
  | some a => if a.outline.contains p then some a.factor else none
  | none => none

/-- The factor of the last ground area that holds a place, or the default. -/
def plainGroundFactor (s : Scene α) (p : Point α) : α :=
  ((List.range s.areas.size).reverse.findSome? (s.factorIn p)).getD s.defaults.ground

/-- Some part of the segment inside the building begins or ends below the roof. -/
def blocks (s : Scene α) (p q : Point α) (b : Nat) : Bool :=
  let z (t : α) : α := p.z + t * (q.z - p.z)
  match s.buildings[b]?, s.roofs[b]? with
  | some building, some roof =>
      (building.outline.insideParts p q).any fun (ta, tb) =>
        decide (min (z ta) (z tb) < roof - Scalar.eps)
  | _, _ => false

/-- All buildings that block the segment. -/
def plainObstructing (s : Scene α) (p q : Point α) : List Nat :=
  (List.range s.buildings.size).filter (s.blocks p q)

/-- The parts of the segment inside one building. -/
def partsInside (s : Scene α) (p q : Point α) (b : Nat) : List (Nat × α × (α × α)) :=
  match s.buildings[b]?, s.roofs[b]? with
  | some building, some roof => (building.outline.insideParts p q).map fun part => (b, roof, part)
  | _, _ => []

/-- The cut of a scene whose parts inside buildings are given. -/
def cutThrough (s : Scene α) (p q : Point α) (inside : List (Nat × α × (α × α))) : Cut α :=
  let parts := s.groundParts p q
  let startFactor := match parts with
    | part :: _ => s.partFactor p q part
    | [] => s.groundFactor p
  let marks := s.groundMarks p q ++ inside.flatMap (s.wallMarks p q)
    ++ s.factorMarks p q startFactor parts.tail
  { p1 := p
    p2 := q
    startFactor := startFactor
    startInside := inside.countP fun (_, _, ta, _) => decide (ta ≤ Scalar.eps)
    marks := Sequence.sortOn (fun a b => Scalar.order a.distance b.distance) marks }

/-- The cut with the walls of all buildings. -/
def plainCut (s : Scene α) (p q : Point α) : Cut α :=
  s.cutThrough p q ((List.range s.buildings.size).flatMap (s.partsInside p q))

/-- The wall is no farther from the place than `radius`. -/
def wallWithin (s : Scene α) (p : Point α) (radius : α) (w : Nat) : Bool :=
  match s.walls[w]? with
  | some wall => p.distanceToSegment wall.p0 wall.p1 ≤ radius
  | none => false

/-- All walls within `radius` metres of a place. -/
def plainWallsNear (s : Scene α) (p : Point α) (radius : α) : List Nat :=
  (List.range s.walls.size).filter (s.wallWithin p radius)

theorem groundFactor_eq (s : Scene α) (p : Point α) :
    s.groundFactor p
      = ((s.areaGrid.atPoint p).reverse.findSome? (s.factorIn p)).getD s.defaults.ground := rfl

theorem obstructing_eq (s : Scene α) (p q : Point α) :
    s.obstructing p q = (s.buildingGrid.along p q).filter (s.blocks p q) := rfl

theorem cut_eq (s : Scene α) (p q : Point α) :
    s.cut p q = s.cutThrough p q ((s.buildingGrid.along p q).flatMap (s.partsInside p q)) := rfl

theorem wallsNear_eq (s : Scene α) (p : Point α) (radius : α) :
    s.wallsNear p radius
      = (s.wallGrid.inBox ((Box.ofSegment p p).inflate radius)).filter (s.wallWithin p radius) :=
  rfl

end Plain

end Scene

/-! ## Lists by their members -/

theorem filter_eq_filter_range {l : List Nat} {n : Nat} {keep : Nat → Bool}
    (ascending : l.Pairwise (· < ·)) (members : ∀ k, keep k = true → (k ∈ l ↔ k < n)) :
    l.filter keep = (List.range n).filter keep := by
  refine Sequence.eq_of_pairwise_lt (ascending.filter keep) (List.pairwise_lt_range.filter keep) ?_
  intro k
  simp only [List.mem_filter, List.mem_range]
  exact and_congr_left fun kept => members k kept

theorem flatMap_eq_flatMap_range {β : Type} {l : List Nat} {n : Nat} {f : Nat → List β}
    (ascending : l.Pairwise (· < ·)) (members : ∀ k, f k ≠ [] → (k ∈ l ↔ k < n)) :
    l.flatMap f = (List.range n).flatMap f := by
  have full : ∀ m : List Nat, m.flatMap f = (m.filter fun k => !(f k).isEmpty).flatMap f := by
    intro m
    induction m with
    | nil => rfl
    | cons k m ih =>
        cases made : f k with
        | nil => simp [made, ih]
        | cons x rest => simp [made, ih]
  rw [full l, full (List.range n), filter_eq_filter_range ascending]
  intro k kept
  exact members k (by simpa using kept)

theorem findSome?_reverse_eq_range {β : Type} {l : List Nat} {n : Nat} {f : Nat → Option β}
    (ascending : l.Pairwise (· < ·)) (members : ∀ k, (f k).isSome = true → (k ∈ l ↔ k < n)) :
    l.reverse.findSome? f = (List.range n).reverse.findSome? f := by
  have full : ∀ m : List Nat,
      m.reverse.findSome? f = ((m.filter fun k => (f k).isSome).reverse).findSome? f := by
    intro m
    induction m with
    | nil => rfl
    | cons k m ih =>
        cases made : f k with
        | none => simp [made, ih]
        | some x => simp [made, ih]
  rw [full l, full (List.range n), filter_eq_filter_range ascending members]

end RoadNoise
