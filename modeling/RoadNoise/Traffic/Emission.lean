/-
# RoadNoise.Traffic.Emission -- the sound power of traffic on a road

The level of one vehicle per hour is computed per octave from the laws of its
category and the state of the road (`unitLevel`); the number of vehicles adds to it.
Third octaves share the power of their octave equally.
-/
import RoadNoise.Spectrum
import RoadNoise.Traffic.Surface

set_option autoImplicit false

namespace RoadNoise

/-- The direction of traffic on a digitised road. -/
inductive Way where
  | direct
  /-- Against the direction of the road, so that its slope is reversed. -/
  | inverse
  /-- Half of the traffic either way. -/
  | twoWay
  deriving DecidableEq

/-- What an emission level is the level of. -/
inductive EmissionUnit where
  /-- All vehicles of an hour. -/
  | perVehicleFlow
  /-- A metre of road. -/
  | perMetre
  deriving DecidableEq

/-- The state of a road and its weather. -/
structure RoadState (α : Type) where
  surface : String
  /-- Degrees Celsius. -/
  temperature : α
  /-- The share of light vehicles with studded tyres. -/
  studdedRatio : α
  /-- Days of the year with studded tyres. -/
  studdedDays : α
  /-- Metres to the next junction. -/
  junctionDistance : α
  junction : Junction
  /-- Percent. -/
  slope : α
  way : Way
  /-- Metres of the source above the road. -/
  sourceHeight : α

structure EmissionModel (α : Type) where
  bands : BandSet
  unit : EmissionUnit
  surfaces : SurfaceCatalogue α

variable {α : Type} [Scalar α]

/-- The speed that the laws of noise start from, in kilometres per hour. -/
def referenceSpeed : α := 70

/-- The temperature that the laws of noise hold at, in degrees Celsius. -/
def referenceRoadTemperature : α := 20

namespace RoadState

/-- A dry level road on the reference surface, far from junctions. -/
def standard : RoadState α :=
  ⟨SurfaceCatalogue.referenceName, referenceRoadTemperature, 0, 0, 250, .none, 0, .direct, 0.05⟩

def check (r : RoadState α) : Outcome α Unit := do
  require (Scalar.isFinite r.temperature && Scalar.isFinite r.slope)
    (.invalid (.stated "temperature and slope must be finite"))
  demand .invalid "studded tyre ratio" .unitInterval r.studdedRatio
  demand .invalid "studded tyre period" .daysOfYear r.studdedDays
  demand .invalid "junction distance" .notNegative r.junctionDistance
  demand .invalid "source height" .notNegative r.sourceHeight

/-- How near the next junction is, from 0 at a hundred metres to 1. -/
def junctionShare (r : RoadState α) : α := max (1 - Scalar.abs r.junctionDistance / 100) 0

end RoadState

/-! ## One vehicle -/

/-- Decibels that tyres gain where a share of them is studded for some days. -/
def studdedGain (speed ratio days : α) (octave : Fin 8) : α :=
  let v := Scalar.clamp 50 90 speed
  let law : SpeedLaw α := studdedTyres
  let delta := law.a.get octave + law.b.get octave * Scalar.log10 (v / referenceSpeed)
  let share := ratio * days / 365
  10 * Scalar.log10 ((1 - share) + share * Level.power delta)

/-- The level of the tyres in one octave. -/
def rollingLevel (law : SpeedLaw α) (category : VehicleCategory) (speed : α)
    (road : RoadState α) (surface : RoadSurface α) (octave : Fin 8) : α :=
  let logSpeed := Scalar.log10 (speed / referenceSpeed)
  let base := law.a.get octave + law.b.get octave * logSpeed
    + category.temperatureFactor * (referenceRoadTemperature - road.temperature)
    + (category.junctionGain road.junction).1 * road.junctionShare
  let studded :=
    if category = .light ∧ 0 < road.studdedRatio ∧ 0 < road.studdedDays then
      base + studdedGain speed road.studdedRatio road.studdedDays octave
    else base
  studded + surface.octaveGain category octave + surface.speedGain category * logSpeed

/-- The level of the engine in one octave, on a slope. -/
def propulsionLevel (category : VehicleCategory) (speed : α) (road : RoadState α)
    (surface : RoadSurface α) (slope : α) (octave : Fin 8) : α :=
  let law : SpeedLaw α := category.propulsion
  law.a.get octave + law.b.get octave * max ((speed - referenceSpeed) / referenceSpeed) 0
    + (category.junctionGain road.junction).2 * road.junctionShare
    + category.slopeGain speed slope
    + min (surface.octaveGain category octave) 0

/-- The level of one vehicle per hour in one octave, on a slope. -/
def unitLevel (category : VehicleCategory) (speed : α) (road : RoadState α)
    (surface : RoadSurface α) (slope : α) (octave : Fin 8) : α :=
  let engine := propulsionLevel category speed road surface slope octave
  match (category.rolling? : Option (SpeedLaw α)) with
  | some law =>
      let tyres := rollingLevel law category speed road surface octave
      Level.ofPower (Level.power tyres + Level.power engine)
  | none => engine

/-! ## Traffic -/

/-- The power of one vehicle per hour in one octave, in the directions of the road. -/
def unitPower (flow : VehicleFlow α) (road : RoadState α) (surface : RoadSurface α)
    (octave : Fin 8) : α :=
  let along := Level.power (unitLevel flow.category flow.speed road surface road.slope octave)
  let against := Level.power (unitLevel flow.category flow.speed road surface (-road.slope) octave)
  match road.way with
  | .direct => along
  | .inverse => against
  | .twoWay => 0.5 * (along + against)

namespace EmissionModel

/-- A model with the standard surfaces, for the level of all vehicles of an hour. -/
def standard (bands : BandSet) : EmissionModel α := ⟨bands, .perVehicleFlow, .standard⟩

/-- Decibels that the number of vehicles adds. -/
def flowGain (m : EmissionModel α) (flow : VehicleFlow α) : α :=
  match m.unit with
  | .perVehicleFlow => 10 * Scalar.log10 flow.count
  | .perMetre => 10 * Scalar.log10 (flow.count / (1000 * flow.speed))

/-- The level of a flow in one octave. -/
def octaveLevel (m : EmissionModel α) (flow : VehicleFlow α) (road : RoadState α)
    (surface : RoadSurface α) (octave : Fin 8) : α :=
  max (Level.ofPower (unitPower flow road surface octave) + m.flowGain flow) Level.silent

/-- The levels of a flow in the bands of the model. -/
def levels (m : EmissionModel α) (flow : VehicleFlow α) (road : RoadState α)
    (surface : RoadSurface α) : List α :=
  match m.bands with
  | .octave => (List.finRange 8).map (m.octaveLevel flow road surface)
  | .thirdOctave =>
      BandSet.thirdOctave.octaves.map fun octave =>
        max (m.octaveLevel flow road surface octave - 10 * Scalar.log10 3) Level.silent

/-- The emission of one flow. -/
def evaluate (m : EmissionModel α) (flow : VehicleFlow α) (road : RoadState α) :
    Outcome α (Spectrum α) := do
  flow.check
  road.check
  let surface ← m.surfaces.get road.surface
  if flow.count ≤ 0 then return Spectrum.silent m.bands
  else Spectrum.ofLevels m.bands (m.levels flow road surface)

/-- The emission of several flows on one road. -/
def evaluateAll (m : EmissionModel α) (flows : List (VehicleFlow α)) (road : RoadState α) :
    Outcome α (Spectrum α) := do
  match flows with
  | [] => return Spectrum.silent m.bands
  | _ => Spectrum.combine (← flows.mapM fun flow => m.evaluate flow road)

end EmissionModel

end RoadNoise
