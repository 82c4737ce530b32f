/-
# RoadNoise.Reception.Settings -- what a batch is computed with
-/
import RoadNoise.Loss.Score
import RoadNoise.Scene.Edit

set_option autoImplicit false

namespace RoadNoise

structure Settings (α : Type) where
  bands : BandSet
  atmosphere : Atmosphere α
  /-- Absorption by the air in dB per kilometre and band, instead of the computed one. -/
  airTable : Option (List α)
  /-- The share of the time with favourable conditions. -/
  favourable : α
  /-- Such a share per sector of direction, instead of the one for all. -/
  windRose : Option (Vector α 16)
  options : PathOptions α
  /-- Sources farther than this from a receiver do not count for it. -/
  maxSourceDistance : α
  defaults : Defaults α
  /-- The number of workers, where it is set. -/
  threads : Option Nat

variable {α : Type} [Scalar α]

namespace Settings

def standard : Settings α :=
  { bands := .octave
    atmosphere := .standard
    airTable := none
    favourable := 0
    windRose := none
    options := .standard
    maxSourceDistance := 1200
    defaults := ⟨0, 0, 0.1⟩
    threads := none }

def weather (s : Settings α) : Weather α :=
  match s.windRose with
  | some rose => .rose rose
  | none => .uniform s.favourable

/-- Passes when the settings can be computed with. -/
def check (s : Settings α) : Outcome α Unit := do
  s.atmosphere.check
  match s.airTable with
  | some table =>
      require (table.length == s.bands.size)
        (.settings (.tableSize "alpha_atmo" s.bands table.length))
  | none => pure ()
  s.weather.check
  match s.options.sourceFactor with
  | some g => demand .settings "source_ground_factor" .unitInterval g
  | none => pure ()
  demand .settings "default_ground_absorption" .unitInterval s.defaults.ground
  demand .settings "default_wall_absorption" .unitInterval s.defaults.wall
  require (Scalar.isFinite s.defaults.elevation)
    (.settings (.notFinite "default_elevation" none))
  demand .settings "max_source_distance" .positive s.maxSourceDistance
  demand .settings "max_reflection_distance" .positive s.options.maxReflectionDistance
  require (s.threads != some 0) (.settings (.stated "threads must be >= 1"))

def calculator (s : Settings α) : Outcome α (Calculator α) := do
  let plain ← Calculator.ofAtmosphere s.bands s.atmosphere
  let c ← plain.withWeather s.weather
  match s.airTable with
  | some table => c.withTable table
  | none => return c

/-- An empty draft with the default values of the settings. -/
def draft (s : Settings α) : Outcome α (Draft α) := do
  let d ← Draft.empty.edit (.defaultGround s.defaults.ground)
  let d ← d.edit (.defaultElevation s.defaults.elevation)
  d.edit (.defaultWall s.defaults.wall)

end Settings

end RoadNoise
