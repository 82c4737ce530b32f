/-
# RoadNoise.Loss.Wind -- how often conditions are favourable

Sound carries farther where its rays bend down.  How much of the time that is so is
one number for all directions, or one for each of sixteen sectors of the direction
of travel.  Sector `i` is centred on `i + 1` times 22.5 degrees, clockwise from
north, so that north is the last one.
-/
import RoadNoise.Fault
import RoadNoise.Plane.Point

set_option autoImplicit false

namespace RoadNoise

/-- The share of the time with favourable conditions. -/
inductive Weather (α : Type) where
  | uniform (p : α)
  | rose (sectors : Vector α 16)

variable {α : Type} [Scalar α]

/-- The sector of the direction from a source to a receiver. -/
def sectorOf (source receiver : Point α) : Fin 16 :=
  let width : α := Scalar.tau / 16
  let angle := Scalar.atan2 (receiver.y - source.y) (receiver.x - source.x)
  let turned := Scalar.pi / 2 - angle + width / 2
  let turned := if turned < 0 then turned + Scalar.tau else turned
  match Scalar.truncate (turned / width) with
  | 0 => 15
  | k + 1 => if h : k < 16 then ⟨k, h⟩ else 15

namespace Weather

/-- Never favourable. -/
def homogeneous : Weather α := .uniform 0

/-- All shares of the time. -/
def shares : Weather α → List α
  | .uniform p => [p]
  | .rose sectors => sectors.toList

/-- Passes when every share is one. -/
def check (w : Weather α) : Outcome α Unit :=
  w.shares.zipIdx.forM fun (p, i) =>
    demand .settings s!"favourable probability #{i}" .unitInterval p

/-- The share of the time for sound that travels from a source to a receiver. -/
def probability (w : Weather α) (source receiver : Point α) : α :=
  match w with
  | .uniform p => p
  | .rose sectors => sectors.get (sectorOf source receiver)

end Weather

end RoadNoise
