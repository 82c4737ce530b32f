/-
# RoadNoise.Traffic.Road -- roads as rows of point sources

A road radiates a power per metre along its axis.  For propagation each straight
piece is cut into equal parts no longer than a given step, and the power of a part
is put into its middle, above the ground.
-/
import RoadNoise.Ray.Polyline
import RoadNoise.Scene.Basic
import RoadNoise.Spectrum

set_option autoImplicit false

namespace RoadNoise

/-- A source that radiates evenly in all directions. -/
structure PointSource (α : Type) where
  position : Point α
  spectrum : Spectrum α

/-- The axis of a road and its emission per metre. -/
structure LineSource (α : Type) where
  axis : List (Point α)
  spectrum : Spectrum α
  /-- Metres of the source above the ground. -/
  height : α

variable {α : Type} [Scalar α]

/-- The parts that a piece of road is cut into. -/
def partCount (length step : α) : Nat := Scalar.truncate (max (Scalar.ceil (length / step)) 1)

namespace LineSource

def ofAxis (axis : List (Point α)) (spectrum : Spectrum α) (height : α) :
    Outcome α (LineSource α) := do
  require (2 ≤ axis.length) (.invalid (.tooFew "line source" 2 "points" axis.length))
  require (axis.all Point.isFinite && Scalar.isFinite height)
    (.invalid (.strayCoordinate "line source"))
  return ⟨axis, spectrum, height⟩

/-- The planar length of the axis. -/
def length (l : LineSource α) : α := Polyline.planarLength l.axis

/-- The sources of one straight piece of the road, over ground of the given
elevation; a piece without length has none. -/
def pieceSources (l : LineSource α) (ground : α → α → α) (step : α) (p q : Point α) :
    List (PointSource α) :=
  let length := p.planarDistance q
  if length ≤ 0 then []
  else
    let parts := partCount length step
    let spectrum := l.spectrum.offset (10 * Scalar.log10 (length / Scalar.ofNat parts))
    (List.range parts).map fun k =>
      let m := Point.between p q ((Scalar.ofNat k + 0.5) / Scalar.ofNat parts)
      ⟨m.raisedTo (ground m.x m.y + l.height), spectrum⟩

/-- The sources of a road over ground of the given elevation. -/
def sources (l : LineSource α) (ground : α → α → α) (step : α) : List (PointSource α) :=
  (Sequence.adjacent l.axis).flatMap fun (p, q) => l.pieceSources ground step p q

/-- Some piece of the road has a length. -/
def hasLength (l : LineSource α) : Bool :=
  (Sequence.adjacent l.axis).any fun (p, q) => !decide (p.planarDistance q ≤ 0)

/-- Passes when the road can be cut at this step. -/
def checkStep (step : α) : Outcome α Unit := demand .invalid "discretization step" .positive step

end LineSource

end RoadNoise
