/-
# RoadNoise.Text.Document -- the values of the model in JSON

The shape of every type that is read from a document, and the two documents a user
writes: settings of a batch and catalogues of road surfaces.
-/
import RoadNoise.Double
import RoadNoise.Reception.Batch
import RoadNoise.Text.Shape
import RoadNoise.Traffic.Emission

set_option autoImplicit false

namespace RoadNoise

namespace Shape

/-! ## Names -/

def bandSet : Shape BandSet := choice [("octave", .octave), ("third_octave", .thirdOctave)]

def categoryNames : List (String × VehicleCategory) :=
  [("light", .light), ("medium", .medium), ("heavy", .heavy),
    ("light_two_wheeler", .lightTwoWheeler), ("heavy_two_wheeler", .heavyTwoWheeler)]

def category : Shape VehicleCategory := choice categoryNames

def junction : Shape Junction :=
  choice [("none", .none), ("traffic_light", .trafficLight), ("roundabout", .roundabout)]

def way : Shape Way := choice [("direct", .direct), ("inverse", .inverse), ("two_way", .twoWay)]

/-- The kinds of paths that have no order. -/
def plainKinds : List (String × PathKind) :=
  [("direct", .direct), ("top_diffraction", .top), ("lateral_left", .left),
    ("lateral_right", .right)]

/-- The order of a reflected path. -/
def reflectionOrder : Shape Nat := fun value => do
  match ← fields ["order"] value with
  | [order] => required nat order
  | _ => none

def pathKind : Shape PathKind := fun value =>
  (choice plainKinds value).or
    (alternative [("reflection", fun v => (reflectionOrder v).map .reflected)] value)

def height : Shape (Height Float) :=
  alternative
    [("relative", fun v => (float v).map .relative), ("absolute", fun v => (float v).map .absolute)]

/-! ## Records -/

def point : Shape (Point Float) := fun value => do
  match ← fields ["x", "y", "z"] value with
  | [x, y, z] => return ⟨← required float x, ← required float y, ← required float z⟩
  | _ => none

def spectrum : Shape (Spectrum Float) := fun value => do
  match ← fields ["band_set", "levels"] value with
  | [bands, levels] => return ⟨← required bandSet bands, ← required (list float) levels⟩
  | _ => none

def vehicleFlow : Shape (VehicleFlow Float) := fun value => do
  match ← fields ["category", "speed", "count"] value with
  | [c, speed, count] =>
      return ⟨← required category c, ← required float speed, ← required float count⟩
  | _ => none

def roadState : Shape (RoadState Float) := fun value => do
  let d : RoadState Float := .standard
  match ← fields ["surface", "temperature", "studded_ratio", "studded_days",
      "junction_distance", "junction", "slope", "way", "source_height"] value with
  | [surface, temperature, ratio, days, distance, kind, slope, direction, sourceHeight] =>
      return {
        surface := ← withDefault d.surface string surface
        temperature := ← withDefault d.temperature float temperature
        studdedRatio := ← withDefault d.studdedRatio float ratio
        studdedDays := ← withDefault d.studdedDays float days
        junctionDistance := ← withDefault d.junctionDistance float distance
        junction := ← withDefault d.junction junction kind
        slope := ← withDefault d.slope float slope
        way := ← withDefault d.way way direction
        sourceHeight := ← withDefault d.sourceHeight float sourceHeight }
  | _ => none

/-- The last value of each category, in the order of the categories. -/
def byCategory {β : Type} (given : List (VehicleCategory × β)) : List (VehicleCategory × β) :=
  VehicleCategory.all.filterMap fun c => (given.reverse.lookup c).map fun v => (c, v)

def categoryMap {β : Type} (shape : Shape β) : Shape (List (VehicleCategory × β)) := fun value =>
  (map (fun name => categoryNames.lookup name) shape value).map byCategory

def roadSurface : Shape (RoadSurface Float) := fun value => do
  match ← fields ["alpha", "beta", "speed_range"] value with
  | [alpha, beta, range] =>
      return {
        alpha := ← withDefault [] (categoryMap (vector 8 float)) alpha
        beta := ← withDefault [] (categoryMap float) beta
        speeds := ← withDefault none (optional (pair float float)) range }
  | _ => none

def pointSource : Shape (PointSource Float) := fun value => do
  match ← fields ["position", "spectrum"] value with
  | [position, s] => return ⟨← required point position, ← required spectrum s⟩
  | _ => none

def receiver : Shape (Receiver Float) := fun value => do
  match ← fields ["id", "position"] value with
  | [id, position] => return ⟨← required nat id, ← required point position⟩
  | _ => none

def pathOptions : Shape (PathOptions Float) := fun value => do
  let d : PathOptions Float := .standard
  match ← fields ["horizontal_diffraction", "vertical_diffraction", "max_reflection_order",
      "source_ground_factor", "max_reflection_distance"] value with
  | [horizontal, vertical, order, factor, distance] =>
      return {
        horizontal := ← withDefault d.horizontal bool horizontal
        vertical := ← withDefault d.vertical bool vertical
        maxOrder := ← withDefault d.maxOrder nat order
        sourceFactor := ← withDefault d.sourceFactor (optional float) factor
        maxReflectionDistance := ← withDefault d.maxReflectionDistance float distance }
  | _ => none

def atmosphere : Shape (Atmosphere Float) := fun value => do
  let d : Atmosphere Float := .standard
  match ← fields ["temperature", "humidity", "pressure"] value with
  | [temperature, humidity, pressure] =>
      return {
        temperature := ← withDefault d.temperature float temperature
        humidity := ← withDefault d.humidity float humidity
        pressure := ← withDefault d.pressure float pressure }
  | _ => none

def settings : Shape (Settings Float) := fun value => do
  let d : Settings Float := .standard
  match ← fields ["band_set", "temperature", "humidity", "pressure", "alpha_atmo",
      "favourable_probability", "wind_rose", "max_reflection_order", "horizontal_diffraction",
      "vertical_diffraction", "source_ground_factor", "max_source_distance",
      "max_reflection_distance", "default_ground_absorption", "default_elevation",
      "default_wall_absorption", "threads"] value with
  | [bands, temperature, humidity, pressure, table, favourable, rose, order, horizontal,
      vertical, factor, sourceDistance, reflectionDistance, ground, elevation, wall, threads] =>
      return {
        bands := ← withDefault d.bands bandSet bands
        atmosphere := {
          temperature := ← withDefault d.atmosphere.temperature float temperature
          humidity := ← withDefault d.atmosphere.humidity float humidity
          pressure := ← withDefault d.atmosphere.pressure float pressure }
        airTable := ← withDefault d.airTable (optional (list float)) table
        favourable := ← withDefault d.favourable float favourable
        windRose := ← withDefault d.windRose (optional (vector 16 float)) rose
        options := {
          horizontal := ← withDefault d.options.horizontal bool horizontal
          vertical := ← withDefault d.options.vertical bool vertical
          maxOrder := ← withDefault d.options.maxOrder nat order
          sourceFactor := ← withDefault d.options.sourceFactor (optional float) factor
          maxReflectionDistance :=
            ← withDefault d.options.maxReflectionDistance float reflectionDistance }
        maxSourceDistance := ← withDefault d.maxSourceDistance float sourceDistance
        defaults := {
          ground := ← withDefault d.defaults.ground float ground
          elevation := ← withDefault d.defaults.elevation float elevation
          wall := ← withDefault d.defaults.wall float wall }
        threads := ← withDefault d.threads (optional nat) threads }
  | _ => none

/-- Named surfaces in the order of the document. -/
def surfaces : Shape (List (String × RoadSurface Float)) := map some roadSurface

end Shape

/-! ## Documents -/

/-- The value of a text that has a shape. -/
def Shape.ofString? {β : Type} (shape : Shape β) (text : String) : Option β :=
  (Json.ofString? text).bind shape

/-- Settings from what a document describes. -/
def Settings.ofJson (document : Option Json) : Outcome Float (Settings Float) := do
  match document.bind Shape.settings with
  | some s =>
      s.check
      return s
  | none => throw (.malformed "propagation config")

/-- Settings from a document. -/
def Settings.ofText (text : String) : Outcome Float (Settings Float) :=
  Settings.ofJson (Json.ofString? text)

/-- Settings from a file, by its path and what can be read there. -/
def Settings.ofFile (path : String) : Option String → Outcome Float (Settings Float)
  | some text => Settings.ofText text
  | none => throw (.unreadable ("config file " ++ path))

/-- A catalogue of surfaces from a document. -/
def SurfaceCatalogue.ofText (text : String) : Outcome Float (SurfaceCatalogue Float) :=
  match Shape.surfaces.ofString? text with
  | some entries => return .ofEntries entries
  | none => throw (.malformed "road surface catalogue")

/-- A catalogue from a file, by its path and what can be read there. -/
def SurfaceCatalogue.ofFile (path : String) : Option String → Outcome Float (SurfaceCatalogue Float)
  | some text => SurfaceCatalogue.ofText text
  | none => throw (.unreadable path)

end RoadNoise
