/-
# RoadNoise.Band -- the frequency bands of a computation

A computation runs in eight octave bands or in eighteen third-octave bands.  The
tables of the traffic and ground models are given per octave, so every band names
the octave that it takes its values from.
-/
import RoadNoise.Scalar

set_option autoImplicit false

namespace RoadNoise

inductive BandSet where
  /-- Eight octaves, 63 Hz to 8 kHz. -/
  | octave
  /-- Eighteen third octaves, 100 Hz to 5 kHz. -/
  | thirdOctave
  deriving DecidableEq

/-- One value per octave from 63 Hz to 8 kHz. -/
abbrev Octaves (α : Type) := Vector α 8

namespace BandSet

variable {α : Type} [Scalar α]

/-- The name of a band set in messages. -/
def label : BandSet → String
  | .octave => "Octave"
  | .thirdOctave => "ThirdOctave"

def size : BandSet → Nat
  | .octave => 8
  | .thirdOctave => 18

/-- Nominal centre frequencies in Hz. -/
def frequencies : BandSet → List α
  | .octave => [63, 125, 250, 500, 1000, 2000, 4000, 8000]
  | .thirdOctave =>
      [100, 125, 160, 200, 250, 315, 400, 500, 630, 800, 1000, 1250, 1600, 2000, 2500, 3150,
        4000, 5000]

/-- The exact centre of band `i` is a kilohertz times ten to a tenth of this. -/
def tenths : BandSet → Nat → Int
  | .octave, i => -12 + 3 * i
  | .thirdOctave, i => -10 + 1 * i

/-- Exact centre frequencies in Hz. -/
def exactFrequencies (b : BandSet) : List α :=
  (List.range b.size).map fun i => 1000 * Scalar.pow 10 (Scalar.ofInt (b.tenths i) / 10)

/-- The A-weighting in dB. -/
def aWeighting : BandSet → List α
  | .octave => [-26.2, -16.1, -8.6, -3.2, 0, 1.2, 1, -1.1]
  | .thirdOctave =>
      [-19.1, -16.1, -13.4, -10.9, -8.6, -6.6, -4.8, -3.2, -1.9, -0.8, 0, 0.6, 1, 1.2, 1.3, 1.2,
        1, 0.5]

/-- The octave that band `i` lies in. -/
def octaveOf : BandSet → Nat → Fin 8
  | .octave, i => Fin.ofNat 8 i
  | .thirdOctave, i => Fin.ofNat 8 (1 + i / 3)

/-- The octave of every band. -/
def octaves (b : BandSet) : List (Fin 8) := (List.range b.size).map b.octaveOf

/-- The wavelength of every band in metres, at a speed of sound. -/
def wavelengths (b : BandSet) (celerity : α) : List α :=
  b.exactFrequencies.map fun f => celerity / f

end BandSet

end RoadNoise
