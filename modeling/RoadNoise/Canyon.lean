/-
# RoadNoise.Canyon -- a worked example

A road of two hundred metres runs between two rows of buildings, one of them with a
gap.  Three receivers stand in the canyon, behind the gap and in a back yard.
-/
import RoadNoise.Decimal.Rounded
import RoadNoise.Decimal.Shortest
import RoadNoise.Double
import RoadNoise.Reception.Batch
import RoadNoise.Survey
import RoadNoise.Traffic.Emission

set_option autoImplicit false

namespace RoadNoise.Canyon

def settings : Settings Float :=
  let s : Settings Float := .standard
  { s with
    options := { s.options with maxOrder := 1, horizontal := true }
    defaults := { s.defaults with ground := 0.5 }
    favourable := 0.5 }

/-- A building over a rectangle. -/
def block (xmin ymin xmax ymax height : Float) (absorption : Option Float) :
    Outcome Float (Edit Float) := do
  return .building ⟨← Polygon.rectangle xmin ymin xmax ymax, .relative height, absorption⟩

/-- The canyon, with the default values of some settings elsewhere. -/
def scene (settings : Settings Float) : Outcome Float (Scene Float) := do
  let edits : List (Edit Float) := [
    ← block (-100) 10 100 22 15 (some 0.1),
    ← block (-100) (-22) (-5) (-10) 12 none,
    ← block 5 (-22) 100 (-10) 12 none,
    .area ⟨← Polygon.rectangle (-100) (-80) 100 (-22), 1⟩,
    .topography [⟨-150, -100, 0⟩, ⟨150, -100, -2⟩],
    .topography [⟨-150, 100, 0⟩, ⟨150, 100, 0⟩]]
  return (← edits.foldlM Draft.edit (← settings.draft)).finish

def traffic : List (VehicleFlow Float) :=
  [⟨.light, 50, 900⟩, ⟨.medium, 50, 40⟩, ⟨.heavy, 50, 20⟩, ⟨.heavyTwoWheeler, 50, 10⟩]

def road : Outcome Float (LineSource Float) := do
  let state : RoadState Float := .standard
  traffic.forM VehicleFlow.check
  let model : EmissionModel Float := { EmissionModel.standard .octave with unit := .perMetre }
  LineSource.ofAxis [⟨-100, 0, 0⟩, ⟨100, 0, 0⟩] (← model.evaluateAll traffic state)
    state.sourceHeight

def receivers : List (Receiver Float) := [⟨1, 0, 8, 4⟩, ⟨2, 0, -40, 4⟩, ⟨3, 50, -40, 4⟩]

def resultLine (id : Nat) (r : ReceiverResult Float) : String :=
  s!"Receiver {id}: " ++ Decimal.places 1 r.laeq ++ s!" dB(A) from {r.contributions.length} paths"

def failureLine (id : Nat) (fault : Fault Float) : String :=
  s!"Receiver {id} failed: " ++ fault.message Decimal.text

/-- What there is to say about the road and its receivers under some settings. -/
def report (settings : Settings Float) : Outcome Float (List String) := do
  let s ← scene settings
  let sources := (← road).sources s.elevation 10
  let runner ← Runner.ofScene settings (.ok s)
  let done ← runner.run sources receivers none
  return s!"Road emission: {sources.length} point sources"
    :: done.results.map (fun (id, r) => resultLine id r)
    ++ done.failures.map fun (id, fault) => failureLine id fault

/-- What is said before anything is computed. -/
def heading : String := "Street canyon: 200 m road between two building rows."

end RoadNoise.Canyon
