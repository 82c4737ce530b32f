/-
# RoadNoise.Loss.Air -- absorption by the air

The air takes from a pure tone a number of decibels per kilometre that depends on
its frequency and on the weather: two relaxation processes, of oxygen and of
nitrogen, and a classical part.
-/
import RoadNoise.Fault

set_option autoImplicit false

namespace RoadNoise

/-- The state of the air. -/
structure Atmosphere (α : Type) where
  /-- Degrees Celsius. -/
  temperature : α
  /-- Relative humidity in percent. -/
  humidity : α
  /-- Pascals. -/
  pressure : α

variable {α : Type} [Scalar α]

namespace Atmosphere

/-- The pressure that the reference values belong to. -/
def referencePressure : α := 101325

/-- The temperature that the reference values belong to, in kelvins. -/
def referenceTemperature : α := 293.15

/-- Fifteen degrees, seventy percent, normal pressure. -/
def standard : Atmosphere α := ⟨15, 70, referencePressure⟩

def check (a : Atmosphere α) : Outcome α Unit := do
  demand .settings "temperature" .aboveAbsoluteZero a.temperature
  demand .settings "humidity" .percentage a.humidity
  demand .settings "pressure" .positive a.pressure

/-- The speed of sound in metres per second. -/
def celerity (a : Atmosphere α) : α :=
  343.2 * Scalar.sqrt ((a.temperature + 273.15) / referenceTemperature)

/-- The molar concentration of water vapour in percent. -/
def vapour (a : Atmosphere α) : α :=
  let c := -6.8346 * Scalar.pow (273.16 / (a.temperature + 273.15)) 1.261 + 4.6151
  a.humidity * Scalar.pow 10 c / (a.pressure / referencePressure)

/-- The relaxation frequency of oxygen. -/
def oxygenRelaxation (a : Atmosphere α) : α :=
  let h := a.vapour
  a.pressure / referencePressure * (24 + 4.04e4 * h * (0.02 + h) / (0.391 + h))

/-- The relaxation frequency of nitrogen. -/
def nitrogenRelaxation (a : Atmosphere α) : α :=
  let t := (a.temperature + 273.15) / referenceTemperature
  a.pressure / referencePressure * Scalar.pow t (-0.5)
    * (9 + 280 * a.vapour * Scalar.exp (-4.170 * (Scalar.pow t (-1 / 3) - 1)))

/-- The absorption of a pure tone in dB per kilometre. -/
def absorption (a : Atmosphere α) (frequency : α) : α :=
  let kelvins := a.temperature + 273.15
  let t := kelvins / referenceTemperature
  let p := a.pressure / referencePressure
  let oxygen := a.oxygenRelaxation
  let nitrogen := a.nitrogenRelaxation
  let f2 := frequency * frequency
  let perMetre := 8.686 * f2
    * (1.84e-11 / p * Scalar.sqrt t
      + Scalar.pow t (-2.5)
        * (0.01275 * Scalar.exp (-2239.1 / kelvins) / (oxygen + f2 / oxygen)
          + 0.1068 * Scalar.exp (-3352 / kelvins) / (nitrogen + f2 / nitrogen)))
  1000 * perMetre

end Atmosphere

/-- Absorption coefficients per band, in dB per kilometre. -/
structure AirAbsorption (α : Type) where
  bands : BandSet
  coefficients : List α

namespace AirAbsorption

/-- Coefficients at the exact centres of the bands. -/
def ofAtmosphere (a : Atmosphere α) (bands : BandSet) : Outcome α (AirAbsorption α) := do
  a.check
  return ⟨bands, bands.exactFrequencies.map a.absorption⟩

/-- Coefficients from a table, one per band. -/
def ofTable (bands : BandSet) (table : List α) : Outcome α (AirAbsorption α) := do
  require (table.length == bands.size)
    (.settings (.tableSize "air absorption table" bands table.length))
  table.forM (demand .settings "air absorption coefficient" .notNegative)
  return ⟨bands, table⟩

/-- The loss in every band over a distance in metres. -/
def loss (a : AirAbsorption α) (distance : α) : List α :=
  a.coefficients.map fun c => c * distance / 1000

end AirAbsorption

end RoadNoise
