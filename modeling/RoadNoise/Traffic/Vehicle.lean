/-
# RoadNoise.Traffic.Vehicle -- what drives, and how loud it is by itself

Vehicles come in five categories.  Each has a law for the noise of its engine and,
two-wheelers apart, one for the noise of its tyres; both are tables per octave, at a
reference speed and temperature, with corrections for what differs from that.
-/
import RoadNoise.Fault

set_option autoImplicit false

namespace RoadNoise

inductive VehicleCategory where
  /-- Passenger cars and vans. -/
  | light
  /-- Medium heavy vehicles with two axles. -/
  | medium
  /-- Heavy vehicles with three axles or more. -/
  | heavy
  /-- Mopeds, tricycles and quads. -/
  | lightTwoWheeler
  /-- Motorcycles. -/
  | heavyTwoWheeler
  deriving DecidableEq

/-- What makes traffic stop and go. -/
inductive Junction where
  | none
  | trafficLight
  /-- A roundabout or a stop sign. -/
  | roundabout
  deriving DecidableEq

/-- A law `a + b · x` per octave, for a measure `x` of the speed. -/
structure SpeedLaw (α : Type) where
  a : Octaves α
  b : Octaves α

variable {α : Type} [Scalar α]

namespace VehicleCategory

def all : List VehicleCategory := [.light, .medium, .heavy, .lightTwoWheeler, .heavyTwoWheeler]

/-- The noise of the tyres, by the logarithm of the relative speed. -/
def rolling? : VehicleCategory → Option (SpeedLaw α)
  | .light => some
      { a := #v[79.7, 85.7, 84.5, 90.2, 97.3, 93.9, 84.1, 74.3]
        b := #v[30, 41.5, 38.9, 25.7, 32.5, 37.2, 39, 40] }
  | .medium => some
      { a := #v[84, 88.7, 91.5, 96.7, 97.4, 90.9, 83.8, 80.5]
        b := #v[30, 35.8, 32.6, 23.8, 30.1, 36.2, 38.3, 40.1] }
  | .heavy => some
      { a := #v[87, 91.7, 94.1, 100.7, 100.8, 94.3, 87.1, 82.5]
        b := #v[30, 33.5, 31.3, 25.4, 31.8, 37.1, 38.6, 40.6] }
  | .lightTwoWheeler | .heavyTwoWheeler => none

/-- The noise of the engine, by the relative excess of the speed. -/
def propulsion : VehicleCategory → SpeedLaw α
  | .light =>
      { a := #v[94.5, 89.2, 88, 85.9, 84.2, 86.9, 83.3, 76.1]
        b := #v[-1.3, 7.2, 7.7, 8, 8, 8, 8, 8] }
  | .medium =>
      { a := #v[101, 96.5, 98.8, 96.8, 98.6, 95.2, 88.8, 82.7]
        b := #v[-1.9, 4.7, 6.4, 6.5, 6.5, 6.5, 6.5, 6.5] }
  | .heavy =>
      { a := #v[104.4, 100.6, 101.7, 101, 100.1, 95.9, 91.3, 85.3]
        b := #v[0, 3, 4.6, 5, 5, 5, 5, 5] }
  | .lightTwoWheeler =>
      { a := #v[88, 87.5, 89.5, 93.7, 96.6, 98.8, 93.9, 88.7]
        b := #v[4.2, 7.4, 9.8, 11.6, 15.7, 18.9, 20.3, 20.6] }
  | .heavyTwoWheeler =>
      { a := #v[95, 97.2, 92.7, 92.9, 94.7, 93.2, 90.1, 86.5]
        b := #v[3.2, 5.9, 11.9, 11.6, 11.5, 12.6, 11.1, 12] }

/-- Decibels that tyres gain per degree below the reference temperature. -/
def temperatureFactor : VehicleCategory → α
  | .light => 0.08
  | .medium | .heavy => 0.04
  | .lightTwoWheeler | .heavyTwoWheeler => 0

/-- Decibels that the noise of tyres and of the engine gains at a junction. -/
def junctionGain (category : VehicleCategory) : Junction → α × α
  | .none => (0, 0)
  | .trafficLight =>
      match category with
      | .light => (-4.5, 5.5)
      | .medium | .heavy => (-4, 9)
      | .lightTwoWheeler | .heavyTwoWheeler => (0, 0)
  | .roundabout =>
      match category with
      | .light => (-4.4, 3.1)
      | .medium | .heavy => (-2.3, 6.7)
      | .lightTwoWheeler | .heavyTwoWheeler => (0, 0)

/-- Decibels that the noise of the engine gains on a slope in percent, positive
uphill.  Beyond twelve percent a slope counts as twelve. -/
def slopeGain (category : VehicleCategory) (speed slope : α) : α :=
  match category with
  | .light =>
      if slope < -6 then min (-slope) 12 - 6
      else if slope ≤ 2 then 0
      else speed / 100 * (min slope 12 - 2) / 1.5
  | .medium =>
      if slope < -4 then (speed - 20) / 100 * (min (-slope) 12 - 4) / 0.7
      else if slope ≤ 0 then 0
      else speed / 100 * min slope 12
  | .heavy =>
      if slope < -4 then (speed - 10) / 100 * (min (-slope) 12 - 4) / 0.5
      else if slope ≤ 0 then 0
      else speed / 100 * min slope 12 / 0.8
  | .lightTwoWheeler | .heavyTwoWheeler => 0

end VehicleCategory

/-- The noise that studded tyres add, by the logarithm of the relative speed. -/
def studdedTyres : SpeedLaw α where
  a := #v[0, 0, 0, 2.6, 2.9, 1.5, 2.3, 9.2]
  b := #v[0, 0, 0, -3.1, -6.4, -14, -22.4, -11.4]

/-- The traffic of one category. -/
structure VehicleFlow (α : Type) where
  category : VehicleCategory
  /-- Kilometres per hour. -/
  speed : α
  /-- Vehicles per hour. -/
  count : α

namespace VehicleFlow

def check (f : VehicleFlow α) : Outcome α Unit := do
  demand .invalid "vehicle speed" .positiveSpeed f.speed
  demand .invalid "hourly vehicle count" .notNegative f.count

end VehicleFlow

end RoadNoise
