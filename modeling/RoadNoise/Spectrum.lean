/-
# RoadNoise.Spectrum -- levels per frequency band

A spectrum is a list of levels with the band set it was computed for.  Spectra of
different band sets do not mix: every operation on two of them checks first
(`Spectrum.ensure`).
-/
import RoadNoise.Fault
import RoadNoise.Level

set_option autoImplicit false

namespace RoadNoise

structure Spectrum (α : Type) where
  bands : BandSet
  /-- Levels in dB, one per band. -/
  levels : List α

variable {α : Type} [Scalar α]

/-- Adds levels to a list of powers, band by band. -/
def addPowers (powers levels : List α) : List α :=
  powers.zipWith (fun p l => p + Level.power l) levels
    ++ powers.drop levels.length

namespace Spectrum

/-- A spectrum of ordinary levels, one per band. -/
def ofLevels (bands : BandSet) (levels : List α) : Outcome α (Spectrum α) := do
  require (levels.length == bands.size) (.invalid (.levelCount bands levels.length))
  match levels.find? fun l => !Scalar.isFinite l with
  | some l => throw (.invalid (.notFinite "spectrum level" (some l)))
  | none => return ⟨bands, levels⟩

/-- The same level in every band. -/
def uniform (bands : BandSet) (level : α) : Spectrum α :=
  ⟨bands, List.replicate bands.size level⟩

def silent (bands : BandSet) : Spectrum α := uniform bands Level.silent

/-- Passes when the spectrum is of the expected band set. -/
def ensure (s : Spectrum α) (expected : BandSet) : Outcome α Unit :=
  require (s.bands = expected) (.bandMismatch expected s.bands)

/-- `offset` dB more in every band. -/
def offset (s : Spectrum α) (offset : α) : Spectrum α :=
  ⟨s.bands, s.levels.map (· + offset)⟩

/-- The level of all bands together. -/
def total (s : Spectrum α) : α := Level.total s.levels

/-- The level of all bands together as the ear weighs them. -/
def aWeighted (s : Spectrum α) : α :=
  Level.total (s.levels.zipWith (· + ·) s.bands.aWeighting)

/-- Powers per band of spectra of one band set, added to `powers`. -/
def addAll (bands : BandSet) : List α → List (Spectrum α) → Outcome α (List α)
  | powers, [] => return powers
  | powers, s :: rest => do
      s.ensure bands
      addAll bands (addPowers powers s.levels) rest

/-- The powers per band of spectra of one band set, heard together. -/
def powers (bands : BandSet) (spectra : List (Spectrum α)) : Outcome α (List α) :=
  addAll bands (List.replicate bands.size 0) spectra

/-- Spectra heard together; at least one has to be given. -/
def combine : List (Spectrum α) → Outcome α (Spectrum α)
  | [] => throw (.invalid (.stated "cannot sum an empty list of spectra"))
  | s :: rest => do
      return ⟨s.bands, (← powers s.bands (s :: rest)).map Level.ofPower⟩

/-- Spectra of a given band set heard together; none at all is silence. -/
def overlay (bands : BandSet) (spectra : List (Spectrum α)) : Outcome α (Spectrum α) := do
  ofLevels bands ((← powers bands spectra).map Level.ofPower)

end Spectrum

end RoadNoise
