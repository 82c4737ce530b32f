/-
# RoadNoise.Loss.Edge -- bending over edges

The longer the detour over an edge, measured in wavelengths, the greater the loss,
up to a cap.  Edges far apart count more than one.
-/
import RoadNoise.Ray.Path

set_option autoImplicit false

namespace RoadNoise

variable {α : Type} [Scalar α]

/-- The greatest loss by bending, in dB. -/
def maxEdgeLoss : α := 25

/-- How much the distance between the first and the last edge weighs.  Up to a third
of a metre they count as one. -/
def spreadFactor (wavelength spread : α) : α :=
  if 0.3 < spread then
    let r := Scalar.sq (5 * wavelength / spread)
    (1 + r) / (1 / 3 + r)
  else 1

/-- The loss over a detour of `delta` metres, none where it is no detour. -/
def edgeLoss (delta spread wavelength : α) : α :=
  if delta ≤ 0 then 0
  else
    min (10 * Scalar.log10 (3 + 40 / wavelength * spreadFactor wavelength spread * delta))
      maxEdgeLoss

namespace Detour

def loss (d : Detour α) (wavelength : α) : α := edgeLoss d.delta d.spread wavelength

/-- The loss where rays bend down. -/
def favourableLoss (d : Detour α) (wavelength : α) : α :=
  edgeLoss d.favourableDelta d.spread wavelength

end Detour

end RoadNoise
