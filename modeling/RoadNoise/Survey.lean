/-
# RoadNoise.Survey -- from a draft to answers, step by step

The steps of a study area are edits, the one that finishes it, and queries; each has a reply.
They are steps of a site.  A survey shows as much of a site as can be told from outside: a
draft until it is finished and a scene from then on.
-/
import RoadNoise.Ray.Search
import RoadNoise.Scene.Edit
import RoadNoise.Traffic.Road

set_option autoImplicit false

namespace RoadNoise

inductive Survey (α : Type) where
  | draft (d : Draft α)
  | scene (s : Scene α)

/-- What a scene can be asked. -/
inductive Query (α : Type) where
  | elevation (at_ : Point α)
  | groundFactor (at_ : Point α)
  | cut (p q : Point α)
  | obstructing (p q : Point α)
  | hides (p q : Point α)
  | obstructed (p q : Point α)
  | wallsNear (at_ : Point α) (radius : α)
  | paths (source receiver : Point α) (options : PathOptions α)
  | sources (road : LineSource α) (step : α)

inductive Step (α : Type) where
  | edit (e : Edit α)
  | finish
  | ask (q : Query α)

/-- What a step is answered with. -/
inductive Reply (α : Type) where
  | done
  /-- The number of something added. -/
  | added (number : Nat)
  | number (x : α)
  | truth (b : Bool)
  | numbers (l : List Nat)
  | cut (c : Cut α)
  | paths (ps : List (Path α))
  | sources (s : List (PointSource α))

/-- The state after some steps, and the replies to them. -/
def runFrom {σ ι ρ : Type} (step : σ → ι → σ × ρ) (state : σ) : List ι → σ × List ρ
  | [] => (state, [])
  | i :: rest =>
      let (next, reply) := step state i
      let (last, replies) := runFrom step next rest
      (last, reply :: replies)

variable {α : Type} [Scalar α]

/-! ## Sites -/

/-- Makes an edit and replies to it. -/
def Edit.reply (e : Edit α) : Work α (Reply α) := do
  match e, ← e.work with
  | _, some number => return .added number
  | .defaultGround _, none => return .number (← get).defaults.ground
  | .defaultElevation _, none => return .number (← get).defaults.elevation
  | _, none => return .done

namespace Site

/-- The answer to a query.  Paths are looked for when their ends make sense, and the sources of
a road need the ground where the road has a length. -/
def ask (s : Site α) : Query α → Outcome α (Reply α)
  | .elevation p => return .number (← s.elevation p.x p.y)
  | .groundFactor p => return .number (← s.groundFactor p)
  | .cut p q => return .cut (← s.cut p q)
  | .obstructing p q => return .numbers (← s.obstructing p q)
  | .hides p q => return .truth (← s.hides p q)
  | .obstructed p q => return .truth (← s.obstructed p q)
  | .wallsNear p radius => return .numbers (← s.wallsNear p radius)
  | .paths source receiver options => do
      options.check source receiver
      s.ensureFinished
      return .paths (s.scene.paths source receiver options)
  | .sources road step => do
      LineSource.checkStep step
      if road.hasLength then
        s.ensureFinished
        return .sources (road.sources s.scene.elevation step)
      else return .sources []

def perform : Step α → Work α (Reply α)
  | .edit e => e.reply
  | .finish => do
      finish
      return .done
  | .ask q => do (← get).ask q

/-- The site after a step, and the reply to it. -/
def step (site : Site α) (s : Step α) : Site α × Outcome α (Reply α) := ((perform s).on site).swap

/-- The site after some steps, and the replies to them. -/
def run (site : Site α) (steps : List (Step α)) : Site α × List (Outcome α (Reply α)) :=
  runFrom step site steps

/-- What a site shows. -/
def survey (site : Site α) : Survey α :=
  if site.finished then .scene site.scene else .draft site.toDraft

end Site

/-! ## Surveys -/

namespace Survey

def empty : Survey α := .draft .empty

/-- A site that shows the survey. -/
def site : Survey α → Site α
  | .draft d => .ofDraft d
  | .scene s =>
      { buildings := s.buildings
        areas := s.areas
        topography := []
        defaults := s.defaults
        finished := true
        relief := s.relief
        roofs := s.roofs
        walls := s.walls
        buildingGrid := s.buildingGrid
        areaGrid := s.areaGrid
        wallGrid := s.wallGrid }

/-- The scene, once there is one. -/
def finished : Survey α → Outcome α (Scene α)
  | .draft _ => throw .sceneOpen
  | .scene s => return s

def ask (survey : Survey α) (q : Query α) : Outcome α (Reply α) := survey.site.ask q

/-- The survey after a step, and the reply to it. -/
def step (survey : Survey α) (s : Step α) : Survey α × Outcome α (Reply α) :=
  let (next, reply) := survey.site.step s
  (next.survey, reply)

/-- The survey after some steps, and the replies to them. -/
def run (survey : Survey α) (steps : List (Step α)) : Survey α × List (Outcome α (Reply α)) :=
  runFrom step survey steps

end Survey

end RoadNoise
