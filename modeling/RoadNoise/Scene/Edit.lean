/-
# RoadNoise.Scene.Edit -- filling a draft

An edit is a change of a site as data.  Edits of a draft are made on a site with its
contents, of which the draft is what counts.
-/
import RoadNoise.Scene.Site

set_option autoImplicit false

namespace RoadNoise

/-- A change of a draft. -/
inductive Edit (α : Type) where
  | defaultGround (factor : α)
  | defaultElevation (z : α)
  | defaultWall (absorption : α)
  | building (building : Building α)
  | area (area : GroundArea α)
  | topography (line : List (Point α))

variable {α : Type} [Scalar α]

/-- Makes an edit, and tells the number of what it adds. -/
def Edit.work : Edit α → Work α (Option Nat)
  | .defaultGround factor => do
      Site.setDefaultGround factor
      return none
  | .defaultElevation z => do
      Site.setDefaultElevation z
      return none
  | .defaultWall absorption => do
      Site.setDefaultWall absorption
      return none
  | .building b => do return some (← Site.addBuilding b)
  | .area a => do return some (← Site.addArea a)
  | .topography line => do
      Site.addTopography line
      return none

/-- The draft after an edit. -/
def Draft.edit (d : Draft α) (e : Edit α) : Outcome α (Draft α) := do
  let (outcome, site) := e.work.on (.ofDraft d)
  let _ ← outcome
  return site.toDraft

end RoadNoise
