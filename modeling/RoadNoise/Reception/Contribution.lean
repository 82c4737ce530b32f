/-
# RoadNoise.Reception.Contribution -- what arrives at a receiver

A path of a source contributes the source's level less what the path loses, but
never less than silence.  A receiver's spectrum is that of all its contributions
heard together.
-/
import RoadNoise.Loss.Score
import RoadNoise.Spectrum

set_option autoImplicit false

namespace RoadNoise

/-- The level that one path of one source brings to a receiver. -/
structure Contribution (α : Type) where
  /-- The place of the source in its list. -/
  source : Nat
  path : Path α
  losses : Losses α
  spectrum : Spectrum α

/-- The levels at a receiver. -/
structure ReceiverResult (α : Type) where
  id : Nat
  position : Point α
  contributions : List (Contribution α)
  spectrum : Spectrum α
  /-- The level of all bands together as the ear weighs them. -/
  laeq : α

variable {α : Type} [Scalar α]

/-- The contribution of a path, for computations in the given bands. -/
def contribution (bands : BandSet) (source : Nat) (emission : Spectrum α) (path : Path α)
    (losses : Losses α) : Outcome α (Contribution α) := do
  emission.ensure bands
  require (losses.bands = bands) (.bandMismatch bands losses.bands)
  let levels := emission.levels.zipWith (fun l loss => max (l - loss) Level.silent) losses.total
  return ⟨source, path, losses, ← Spectrum.ofLevels bands levels⟩

/-- The result at a receiver from all its contributions. -/
def aggregate (bands : BandSet) (id : Nat) (position : Point α)
    (contributions : List (Contribution α)) : Outcome α (ReceiverResult α) := do
  let spectrum ← Spectrum.overlay bands (contributions.map Contribution.spectrum)
  return ⟨id, position, contributions, spectrum, spectrum.aWeighted⟩

end RoadNoise
