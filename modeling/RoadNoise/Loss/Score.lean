/-
# RoadNoise.Loss.Score -- what a path loses on its way

In every band a path loses by spreading, to the air, to the ground, over edges and
to walls.  Ground and edges act in two ways, under homogeneous and under favourable
conditions; the long-term loss is that of the mean power, weighted by how often
either holds.
-/
import RoadNoise.Loss.Air
import RoadNoise.Loss.Edge
import RoadNoise.Loss.Ground
import RoadNoise.Loss.Wind

set_option autoImplicit false

namespace RoadNoise

/-- The losses of a path in one band, in dB. -/
structure BandLoss (α : Type) where
  divergence : α
  atmospheric : α
  ground : α
  edges : α
  reflection : α
  favourableGround : α
  favourableEdges : α

/-- The losses of a path. -/
structure Losses (α : Type) where
  bands : BandSet
  /-- One entry per band. -/
  perBand : List (BandLoss α)
  /-- The share of the time with favourable conditions. -/
  favourable : α

variable {α : Type} [Scalar α]

/-- The loss by spreading from a point, over at least a tenth of a metre. -/
def divergence (distance : α) : α := 20 * Scalar.log10 (max distance 0.1) + 11

/-- The loss to one wall. -/
def reflectionLoss (absorption : α) : α := 10 * Scalar.log10 (1 / (1 - absorption))

/-- The loss of the mean power, where a share `p` of the time loses `f` and the rest
of it `h`. -/
def longTerm (p h f : α) : α :=
  if p ≤ 0 then h
  else if 1 ≤ p then f
  else
    -10 * Scalar.log10
      (p * Scalar.pow 10 (-f / 10) + (1 - p) * Scalar.pow 10 (-h / 10))

namespace BandLoss

def homogeneous (b : BandLoss α) : α :=
  b.divergence + b.atmospheric + b.ground + b.edges + b.reflection

/-- All losses where rays bend down. -/
def favourable (b : BandLoss α) : α :=
  b.divergence + b.atmospheric + b.favourableGround + b.favourableEdges + b.reflection

end BandLoss

namespace Losses

def homogeneous (l : Losses α) : List α := l.perBand.map BandLoss.homogeneous

def favourableTotal (l : Losses α) : List α := l.perBand.map BandLoss.favourable

/-- The long-term loss per band. -/
def total (l : Losses α) : List α :=
  l.perBand.map fun b => longTerm l.favourable b.homogeneous b.favourable

end Losses

/-! ## Scoring -/

/-- What scoring depends on besides the path. -/
structure Calculator (α : Type) where
  bands : BandSet
  air : AirAbsorption α
  wavelengths : List α
  weather : Weather α

namespace Calculator

/-- A calculator for an atmosphere, where conditions are never favourable. -/
def ofAtmosphere (bands : BandSet) (a : Atmosphere α) : Outcome α (Calculator α) := do
  let air ← AirAbsorption.ofAtmosphere a bands
  return ⟨bands, air, bands.wavelengths a.celerity, .homogeneous⟩

/-- The calculator for some other weather. -/
def withWeather (c : Calculator α) (weather : Weather α) : Outcome α (Calculator α) := do
  weather.check
  return { c with weather := weather }

/-- The calculator with absorption by the air from a table. -/
def withTable (c : Calculator α) (table : List α) : Outcome α (Calculator α) := do
  return { c with air := ← AirAbsorption.ofTable c.bands table }

end Calculator

namespace Path

/-- The detour that counts: that of a reflected path does not. -/
def scoredDetour (p : Path α) : Option (Detour α) :=
  match p.kind with
  | .reflected _ => none
  | _ => p.detour

/-- The absorption of the walls on the way. -/
def absorptions (p : Path α) : List α := p.events.filterMap PathEvent.absorption?

/-- The loss to all walls on the way. -/
def wallLoss (p : Path α) : α := Scalar.sum (p.absorptions.map reflectionLoss)

/-- Passes when the path has a length and its walls reflect. -/
def check (p : Path α) : Outcome α Unit := do
  demand .invalid "path length" .finiteNotNegative p.length
  p.absorptions.forM (demand .invalid "reflecting facade absorption" .belowOne)

end Path

namespace Calculator

/-- The share of the time with favourable conditions along a path. -/
def favourable (c : Calculator α) (p : Path α) : α :=
  match p.events.head?, p.events.getLast? with
  | some a, some b => c.weather.probability a.position b.position
  | _, _ => 0

/-- The losses of a path that passes its check. -/
def losses (c : Calculator α) (p : Path α) : Losses α :=
  let edges (loss : Detour α → α → α) : List α :=
    match p.scoredDetour with
    | some d => c.wavelengths.map (loss d)
    | none => List.replicate c.bands.size 0
  let spread := divergence p.length
  let walls := p.wallLoss
  let ground := (p.footing.loss c.bands).zip (p.footing.favourableLoss c.bands)
  let bent := (edges Detour.loss).zip (edges Detour.favourableLoss)
  { bands := c.bands
    perBand := ((c.air.loss p.length).zip (ground.zip bent)).map
      fun (air, (g, gf), e, ef) => ⟨spread, air, g, e, walls, gf, ef⟩
    favourable := c.favourable p }

/-- The losses of a path. -/
def score (c : Calculator α) (p : Path α) : Outcome α (Losses α) := do
  p.check
  return c.losses p

end Calculator

end RoadNoise
