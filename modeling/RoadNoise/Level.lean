/-
# RoadNoise.Level -- decibels and the power they stand for

A level of `L` dB stands for the relative power `10 ^ (L / 10)`; sounds add by
their powers.  Silence is a level too, `silent`, below which no level goes, so that
every level is an ordinary number.
-/
import RoadNoise.Scalar

set_option autoImplicit false

namespace RoadNoise.Level

variable {α : Type} [Scalar α]

/-- The level that stands for no sound at all. -/
def silent : α := -99

/-- The relative power of a level. -/
def power (level : α) : α := Scalar.pow 10 (level / 10)

/-- The level of a relative power. -/
def ofPower (w : α) : α :=
  if 0 < w ∧ Scalar.isFinite w then max (10 * Scalar.log10 w) silent else silent

/-- The level of sounds heard together. -/
def total (levels : List α) : α := ofPower (Scalar.sum (levels.map power))

/-! ## Day, evening and night -/

/-- The level over a day whose twelve hours of daytime, four of evening and eight of
night have the given levels; evening counts five and night ten decibels more. -/
def dayEveningNight (day evening night : α) : α :=
  let weighted := Scalar.sum
    [12 * power (day + 0), 4 * power (evening + 5), 8 * power (night + 10)]
  ofPower (weighted / 24)

end RoadNoise.Level
