/-
# RoadNoise.Scene.Basic -- buildings, ground and relief of a study area

A study area has two lives.  A `Draft` is filled with buildings, ground areas and
topographic lines; `Draft.finish` turns it into a `Scene`, where roofs have an
elevation, walls a number and everything a place in a grid.  Only a scene can be
asked and only a draft can be changed, so nothing that was asked can change later.
-/
import RoadNoise.Plane.Polygon
import RoadNoise.Scene.Relief

set_option autoImplicit false

namespace RoadNoise

/-- How the roof of a building is given. -/
inductive Height (α : Type) where
  /-- Metres above the ground. -/
  | relative (h : α)
  /-- The elevation of the gutter. -/
  | absolute (z : α)

/-- A building: an outline up to a flat roof. -/
structure Building (α : Type) where
  outline : Polygon α
  height : Height α
  /-- The absorption of its walls, where it has one of its own. -/
  absorption : Option α

/-- Ground of one absorption, from 0 for hard to 1 for soft. -/
structure GroundArea (α : Type) where
  outline : Polygon α
  factor : α

/-- One wall of a building. -/
structure Wall (α : Type) where
  building : Nat
  p0 : Point α
  p1 : Point α
  absorption : α

/-- What holds where nothing else is said. -/
structure Defaults (α : Type) where
  ground : α
  elevation : α
  wall : α

/-- A study area that is still being filled. -/
structure Draft (α : Type) where
  buildings : Array (Building α)
  areas : Array (GroundArea α)
  topography : List (Point α)
  defaults : Defaults α

/-- A study area that can be asked. -/
structure Scene (α : Type) where
  buildings : Array (Building α)
  /-- The elevation of every roof. -/
  roofs : Array α
  areas : Array (GroundArea α)
  relief : Option (Relief α)
  /-- The walls of all buildings, building by building. -/
  walls : Array (Wall α)
  defaults : Defaults α
  buildingGrid : Grid α
  areaGrid : Grid α
  wallGrid : Grid α

variable {α : Type} [Scalar α]

namespace Wall

def length (w : Wall α) : α := w.p0.planarDistance w.p1

end Wall

/-! ## Finishing -/

/-- The elevation of the ground, by the relief where it covers the place. -/
def groundElevation (relief : Option (Relief α)) (defaults : Defaults α) (x y : α) : α :=
  (relief.bind (·.elevation? x y)).getD defaults.elevation

namespace Building

/-- The elevation of the roof, over ground of the given elevation: a height counts
from the mean ground under the corners of the outline. -/
def roof (ground : α → α → α) (b : Building α) : α :=
  match b.height with
  | .absolute z => z
  | .relative h =>
      Scalar.sum (b.outline.outer.map fun p => ground p.x p.y)
        / Scalar.ofNat b.outline.outer.length + h

def walls (defaults : Defaults α) (b : Building α) (number : Nat) : List (Wall α) :=
  b.outline.edges.map fun (p0, p1) => ⟨number, p0, p1, b.absorption.getD defaults.wall⟩

end Building

namespace Draft

/-- Nothing yet, over hard flat ground. -/
def empty : Draft α := ⟨#[], #[], [], ⟨0, 0, 0.1⟩⟩

def finish (d : Draft α) : Scene α :=
  let relief := if d.topography.isEmpty then none else Relief.ofPoints? d.topography
  let buildings := d.buildings.toList
  let walls := buildings.zipIdx.flatMap fun (b, i) => b.walls d.defaults i
  { buildings := d.buildings
    roofs := d.buildings.map (Building.roof (groundElevation relief d.defaults))
    areas := d.areas
    relief := relief
    walls := walls.toArray
    defaults := d.defaults
    buildingGrid := Grid.ofBoxes (buildings.map (·.outline.box))
    areaGrid := Grid.ofBoxes (d.areas.toList.map (·.outline.box))
    wallGrid := Grid.ofBoxes (walls.map fun w => Box.ofSegment w.p0 w.p1) }

end Draft

/-! ## Simple questions -/

namespace Scene

/-- The elevation of the ground. -/
def elevation (s : Scene α) (x y : α) : α := groundElevation s.relief s.defaults x y

/-- The absorption of the ground; of several areas the last one added counts. -/
def groundFactor (s : Scene α) (p : Point α) : α :=
  let covering := (s.areaGrid.atPoint p).reverse.findSome? fun i =>
    match s.areas[i]? with
    | some a => if a.outline.contains p then some a.factor else none
    | none => none
  covering.getD s.defaults.ground

/-- The walls within `radius` metres of a point, as numbers. -/
def wallsNear (s : Scene α) (p : Point α) (radius : α) : List Nat :=
  (s.wallGrid.inBox ((Box.ofSegment p p).inflate radius)).filter fun w =>
    match s.walls[w]? with
    | some wall => p.distanceToSegment wall.p0 wall.p1 ≤ radius
    | none => false

end Scene

end RoadNoise
