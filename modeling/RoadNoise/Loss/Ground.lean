/-
# RoadNoise.Loss.Ground -- absorption by the ground

The ground counts in three regions: near the source, near the receiver and between.
The outer two reach thirty times the height of their end; each region enters with
the mean factor of its ground.  Where rays bend down the ends count as raised, by
the curvature of the rays and by an allowance for rough terrain, while the regions
stay the same.
-/
import RoadNoise.Ray.Path

set_option autoImplicit false

namespace RoadNoise

variable {α : Type} [Scalar α]

/-! ## Mean factors -/

/-- What the spans from `start` on add to a part from `lo` to `hi`: metres weighted
by their factor, and metres. -/
def coverage (lo hi start : α) (weighted covered : α) : List (Span α) → α × α
  | [] => (weighted, covered)
  | span :: rest =>
      let stop := start + span.length
      let shared := min stop hi - max start lo
      if 0 < shared then
        coverage lo hi stop (weighted + shared * span.factor) (covered + shared) rest
      else coverage lo hi stop weighted covered rest

/-- The mean factor over the part from `lo` to `hi` of spans laid end to end, if
there is any ground in it. -/
def meanFactor? (spans : List (Span α)) (lo hi : α) : Option α :=
  if hi ≤ lo then none
  else
    let (weighted, covered) := coverage lo hi 0 0 0 spans
    if 0 < covered then some (weighted / covered) else none

namespace Footing

/-- The mean factors near the source, between, and near the receiver.  A region
without ground takes the mean of all. -/
def factors (f : Footing α) : α × α × α :=
  let dp := f.length
  let sourceEnd := min (30 * f.sourceHeight) dp
  let receiverStart := max (dp - 30 * f.receiverHeight) 0
  let mean (lo hi : α) : α :=
    ((meanFactor? f.spans lo hi).or (meanFactor? f.spans 0 dp)).getD 0
  let near := f.sourceFactor.getD (mean 0 sourceEnd)
  (near, mean sourceEnd receiverStart, mean receiverStart dp)

/-- The heights of source and receiver that count where rays bend down. -/
def favourableHeights (f : Footing α) : α × α :=
  let hs := f.sourceHeight
  let hr := f.receiverHeight
  let sum := hs + hr
  if sum < Scalar.eps then (hs, hr)
  else
    let dp := f.length
    let rough := 6e-3 * dp / sum
    let raise (h : α) : α := 2e-4 * Scalar.sq (h / sum) * dp * dp / 2
    (hs + raise hs + rough, hr + raise hr + rough)

end Footing

/-! ## Terms -/

/-- The term of an outer region in one octave. -/
def outerTerm (octave : Fin 8) (g h dp : α) : α :=
  let far := 1 - Scalar.exp (-dp / 50)
  match octave with
  | 0 => -1.5
  | 1 =>
      -1.5 + g
        * (1.5 + 3 * Scalar.exp (-0.12 * Scalar.sq (h - 5)) * far
          + 5.7 * Scalar.exp (-0.09 * h * h) * (1 - Scalar.exp (-2.8e-6 * dp * dp)))
  | 2 => -1.5 + g * (1.5 + 8.6 * Scalar.exp (-0.09 * h * h) * far)
  | 3 => -1.5 + g * (1.5 + 14 * Scalar.exp (-0.46 * h * h) * far)
  | 4 => -1.5 + g * (1.5 + 5 * Scalar.exp (-0.9 * h * h) * far)
  | _ => -1.5 * (1 - g)

/-- The term of the region between in one octave; there is such a region where the
outer two do not reach each other. -/
def middleTerm (octave : Fin 8) (g hs hr dp : α) : α :=
  let limit := 30 * (hs + hr)
  let q := if dp ≤ limit then 0 else 1 - limit / dp
  match octave with
  | 0 => -3 * q
  | _ => -3 * q * (1 - g)

/-- The loss in one octave, for ends at the given heights; never a gain. -/
def groundTerm (octave : Fin 8) (factors : α × α × α) (hs hr dp : α) : α :=
  let (near, middle, far) := factors
  max (outerTerm octave near hs dp + outerTerm octave far hr dp + middleTerm octave middle hs hr dp) 0

namespace Footing

def lossAtHeights (f : Footing α) (bands : BandSet) (hs hr : α) : List α :=
  let dp := f.length
  let factors := f.factors
  bands.octaves.map fun octave => groundTerm octave factors hs hr dp

/-- The loss per band by the ground. -/
def loss (f : Footing α) (bands : BandSet) : List α :=
  f.lossAtHeights bands f.sourceHeight f.receiverHeight

/-- The loss per band by the ground where rays bend down. -/
def favourableLoss (f : Footing α) (bands : BandSet) : List α :=
  let (hs, hr) := f.favourableHeights
  f.lossAtHeights bands hs hr

end Footing

end RoadNoise
