/-
# RoadNoise.Scene.Site -- a study area while it is worked on

A site is filled, finished once, and asked from then on.  It is one record, and a flag tells
which of its two lives it is in.  Every change looks at the flag for itself, then at the values
that it is given, and then it is made.  A change that fails ends where it fails, and the site
is left as it is by then (`Work`).
-/
import RoadNoise.Scene.Cut

set_option autoImplicit false

namespace RoadNoise

/-- A study area, with what was made of its contents when it was finished. -/
structure Site (α : Type) extends Draft α where
  finished : Bool
  relief : Option (Relief α)
  /-- The elevation of every roof. -/
  roofs : Array α
  walls : Array (Wall α)
  buildingGrid : Grid α
  areaGrid : Grid α
  wallGrid : Grid α

/-- Work on a site has a result or fails.  It leaves a site in either case. -/
abbrev Work (α β : Type) := ExceptT (Fault α) (StateM (Site α)) β

/-- What comes of some work on a site, and the site after it. -/
def Work.on {α β : Type} (work : Work α β) (site : Site α) : Outcome α β × Site α :=
  StateT.run (ExceptT.run work) site

variable {α : Type} [Scalar α]

namespace Height

def check : Height α → Outcome α Unit
  | .relative h => demand .invalid "building height" .positive h
  | .absolute z =>
      require (Scalar.isFinite z) (.invalid (.notFinite "building roof elevation" (some z)))

end Height

namespace Site

/-- A site with the contents of a draft. -/
def ofDraft (d : Draft α) : Site α :=
  { toDraft := d
    finished := false
    relief := none
    roofs := #[]
    walls := #[]
    buildingGrid := .ofBoxes []
    areaGrid := .ofBoxes []
    wallGrid := .ofBoxes [] }

def empty : Site α := .ofDraft .empty

/-! ## Changes -/

/-- Fails on a site that is finished. -/
def ensureOpen : Work α Unit := do
  if (← get).finished then throw .sceneClosed

def setDefaultGround (factor : α) : Work α Unit := do
  ensureOpen
  demand .invalid "default ground absorption" .unitInterval factor
  modify fun s => { s with defaults := { s.defaults with ground := factor } }

def setDefaultElevation (z : α) : Work α Unit := do
  ensureOpen
  require (Scalar.isFinite z) (.invalid (.notFinite "default elevation" (some z)))
  modify fun s => { s with defaults := { s.defaults with elevation := z } }

def setDefaultWall (absorption : α) : Work α Unit := do
  ensureOpen
  demand .invalid "default wall absorption" .unitInterval absorption
  modify fun s => { s with defaults := { s.defaults with wall := absorption } }

/-- Adds a building and tells its number. -/
def addBuilding (b : Building α) : Work α Nat := do
  ensureOpen
  b.height.check
  if let some a := b.absorption then demand .invalid "wall absorption" .unitInterval a
  modify fun s => { s with buildings := s.buildings.push b }
  return (← get).buildings.size - 1

/-- Adds a ground area and tells its number. -/
def addArea (a : GroundArea α) : Work α Nat := do
  ensureOpen
  demand .invalid "ground absorption" .unitInterval a.factor
  modify fun s => { s with areas := s.areas.push a }
  return (← get).areas.size - 1

/-- Adds the points of a topographic line. -/
def addTopography (line : List (Point α)) : Work α Unit := do
  ensureOpen
  let fault (defect : Defect α) : Fault α := .invalid defect
  require (2 ≤ line.length) (fault (.tooFew "topographic line" 2 "points" line.length))
  require (line.all Point.isFinite) (fault (.strayCoordinate "topographic line"))
  modify fun s => { s with topography := s.topography ++ line }

/-- Finishes a site; one that is finished stays as it is. -/
def finish : Work α Unit := do
  let s ← get
  if s.finished then return
  let made := s.toDraft.finish
  set { s with
    finished := true
    relief := made.relief
    roofs := made.roofs
    walls := made.walls
    buildingGrid := made.buildingGrid
    areaGrid := made.areaGrid
    wallGrid := made.wallGrid }

/-! ## Questions -/

/-- What is asked about. -/
def scene (s : Site α) : Scene α :=
  { buildings := s.buildings
    roofs := s.roofs
    areas := s.areas
    relief := s.relief
    walls := s.walls
    defaults := s.defaults
    buildingGrid := s.buildingGrid
    areaGrid := s.areaGrid
    wallGrid := s.wallGrid }

/-- Fails on a site that is not finished. -/
def ensureFinished (s : Site α) : Outcome α Unit := require s.finished .sceneOpen

def elevation (s : Site α) (x y : α) : Outcome α α := do
  s.ensureFinished
  return s.scene.elevation x y

def groundFactor (s : Site α) (p : Point α) : Outcome α α := do
  s.ensureFinished
  return s.scene.groundFactor p

def cut (s : Site α) (p q : Point α) : Outcome α (Cut α) := do
  s.ensureFinished
  return s.scene.cut p q

def obstructing (s : Site α) (p q : Point α) : Outcome α (List Nat) := do
  s.ensureFinished
  return s.scene.obstructing p q

def hides (s : Site α) (p q : Point α) : Outcome α Bool := do
  return !(← s.cut p q).groundAboveLine.isEmpty

def obstructed (s : Site α) (p q : Point α) : Outcome α Bool := do
  let obstacles ← s.obstructing p q
  if obstacles.isEmpty then s.hides p q else return true

def wallsNear (s : Site α) (p : Point α) (radius : α) : Outcome α (List Nat) := do
  s.ensureFinished
  return s.scene.wallsNear p radius

end Site

end RoadNoise
