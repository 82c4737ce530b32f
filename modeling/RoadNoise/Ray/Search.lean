/-
# RoadNoise.Ray.Search -- all paths from a source to a receiver

Paths come in a fixed order: the direct one, the one over the top, the ones around
the left and the right, and then those by way of walls.  Over and around are only
looked at where something is in the way of the direct line; around, only where that
is a building.
-/
import RoadNoise.Ray.Around
import RoadNoise.Ray.Reflection
import RoadNoise.Ray.Over

set_option autoImplicit false

namespace RoadNoise

variable {α : Type} [Scalar α]

/-- Passes when a source and a receiver are two places and the options are sound. -/
def PathOptions.check (options : PathOptions α) (source receiver : Point α) :
    Outcome α Unit := do
  require (source.isFinite && receiver.isFinite)
    (.invalid (.stated "source and receiver coordinates must be finite"))
  require (!(source.distance receiver < Scalar.eps))
    (.invalid (.stated "source and receiver are at the same position"))
  match options.sourceFactor with
  | some g => demand .invalid "source ground factor" .unitInterval g
  | none => return ()

namespace Scene

/-- The direct path, screened by what stands above it. -/
def directPath (s : Scene α) (source receiver : Point α) (sourceFactor : Option α) : Path α :=
  let directLength := source.distance receiver
  { kind := .direct
    events := bentEvents source receiver []
    length := directLength
    directLength := directLength
    detour := (s.cut source receiver).screening directLength
    footing := s.footing [source, receiver] sourceFactor }

/-- The paths over and around what is in the way. -/
def bentPaths (s : Scene α) (source receiver : Point α) (options : PathOptions α) :
    List (Path α) :=
  let cut := s.cut source receiver
  let obstacles := s.obstructing source receiver
  let directLength := source.distance receiver
  if obstacles.isEmpty && cut.groundAboveLine.isEmpty then []
  else
    let top :=
      if options.vertical then
        (cut.topPath directLength (s.footing [source, receiver] options.sourceFactor)).toList
      else []
    let around :=
      if options.horizontal && !obstacles.isEmpty then
        s.aroundPaths source receiver obstacles directLength options.sourceFactor
      else []
    top ++ around

/-- All paths, for ends and options that pass `PathOptions.check`. -/
def paths (s : Scene α) (source receiver : Point α) (options : PathOptions α) : List (Path α) :=
  s.directPath source receiver options.sourceFactor
    :: s.bentPaths source receiver options
    ++ s.reflectedPaths source receiver options

/-- All paths, or what is wrong with the ends or the options. -/
def findPaths (s : Scene α) (source receiver : Point α) (options : PathOptions α) :
    Outcome α (List (Path α)) := do
  options.check source receiver
  return s.paths source receiver options

end Scene

end RoadNoise
