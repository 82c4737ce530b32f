/-
# RoadNoise.Reception.Batch -- many receivers, any number of workers

Receivers are evaluated one by one, each for itself (`Runner.evaluate`), by workers
that share two flags.  The cancel flag is raised from outside; the abort flag is
raised by a worker whose receiver failed for a reason that will come back.  A worker
that is about to start a receiver skips it when it sees either.

What workers do is a sequence of events (`Event`), and `Runner.play` says what
becomes of a batch under any sequence.  The report is made from the outcomes alone,
so it cannot depend on the order of the events beyond what was skipped.
-/
import RoadNoise.Ray.Search
import RoadNoise.Reception.Contribution
import RoadNoise.Reception.Settings
import RoadNoise.Traffic.Road

set_option autoImplicit false

namespace RoadNoise

structure Receiver (α : Type) where
  id : Nat
  position : Point α

/-- What a batch is evaluated with. -/
structure Runner (α : Type) where
  settings : Settings α
  scene : Scene α
  calculator : Calculator α

/-- What became of a receiver. -/
inductive Fate (α : Type) where
  | waiting
  | started
  | skipped
  | evaluated (outcome : Outcome α (ReceiverResult α))

/-- What happens in a batch, with receivers by their places in the list. -/
inductive Event where
  /-- The cancel flag is raised. -/
  | cancel
  /-- A worker looks at the flags, and starts a receiver or skips it. -/
  | start (place : Nat)
  /-- A worker is done with a receiver. -/
  | finish (place : Nat)

/-- A batch under way. -/
structure Progress (α : Type) where
  cancelled : Bool
  aborted : Bool
  fates : Array (Fate α)
  /-- Identifiers of receivers reported as done, the latest first. -/
  announced : List Nat

/-- What a batch leaves behind; entries are by increasing identifier. -/
structure Report (α : Type) where
  results : List (Nat × ReceiverResult α)
  failures : List (Nat × Fault α)
  /-- Some receiver was skipped. -/
  cancelled : Bool

variable {α : Type} [Scalar α]

namespace Runner

/-- A runner for a finished survey, if the settings can be computed with. -/
def ofScene (settings : Settings α) (scene : Outcome α (Scene α)) : Outcome α (Runner α) := do
  settings.check
  let scene ← scene
  let calculator ← settings.calculator
  return ⟨settings, scene, calculator⟩

/-! ## One receiver -/

/-- The contributions of some paths of one source. -/
def pathContributions (r : Runner α) (place : Nat) (source : PointSource α)
    (paths : List (Path α)) : Outcome α (List (Contribution α)) :=
  paths.mapM fun path => do
    let losses ← r.calculator.score path
    contribution r.settings.bands place source.spectrum path losses

/-- The contributions of a source, none if it is too far away. -/
def sourceContributions (r : Runner α) (receiver : Receiver α) (place : Nat)
    (source : PointSource α) : Outcome α (List (Contribution α)) := do
  if r.settings.maxSourceDistance < source.position.distance receiver.position then return []
  else
    let paths ← r.scene.findPaths source.position receiver.position r.settings.options
    r.pathContributions place source paths

/-- The contributions of sources whose places are counted from `place` on. -/
def contributions (r : Runner α) (receiver : Receiver α) (place : Nat) :
    List (PointSource α) → Outcome α (List (Contribution α))
  | [] => return []
  | source :: rest => do
      let first ← r.sourceContributions receiver place source
      return first ++ (← r.contributions receiver (place + 1) rest)

/-- The levels at a receiver from all sources within range. -/
def evaluate (r : Runner α) (sources : List (PointSource α)) (receiver : Receiver α) :
    Outcome α (ReceiverResult α) := do
  aggregate r.settings.bands receiver.id receiver.position (← r.contributions receiver 0 sources)

/-! ## Events -/

/-- The flag that the outcome of a receiver raises. -/
def raisesAbort (outcome : Outcome α (ReceiverResult α)) : Bool :=
  match outcome with
  | .ok _ => false
  | .error fault => fault.isFatal

/-- A batch before anything has happened. -/
def begin (receivers : Array (Receiver α)) : Progress α :=
  ⟨false, false, receivers.map fun _ => .waiting, []⟩

/-- The batch after an event.  Only a waiting receiver can start and only a started
one can finish; any other event of a worker changes nothing. -/
def event (r : Runner α) (sources : List (PointSource α)) (receivers : Array (Receiver α))
    (p : Progress α) : Event → Progress α
  | .cancel => { p with cancelled := true }
  | .start place =>
      match p.fates[place]? with
      | some .waiting =>
          let fate := if p.cancelled || p.aborted then .skipped else .started
          { p with fates := p.fates.setIfInBounds place fate }
      | _ => p
  | .finish place =>
      match p.fates[place]?, receivers[place]? with
      | some .started, some receiver =>
          let outcome := r.evaluate sources receiver
          { p with
            aborted := p.aborted || raisesAbort outcome
            fates := p.fates.setIfInBounds place (.evaluated outcome)
            announced := if outcome.isOk then receiver.id :: p.announced else p.announced }
      | _, _ => p

/-- The batch after a sequence of events. -/
def play (r : Runner α) (sources : List (PointSource α)) (receivers : Array (Receiver α))
    (p : Progress α) (events : List Event) : Progress α :=
  events.foldl (r.event sources receivers) p

/-- One worker takes the receivers in their order, and the cancel flag is raised as
soon as `limit` of them are done, if a limit is given. -/
def playInOrder (r : Runner α) (sources : List (PointSource α)) (receivers : Array (Receiver α))
    (limit : Option Nat) : Progress α :=
  let cancelAtLimit (p : Progress α) : Progress α :=
    if limit = some p.announced.length then r.event sources receivers p .cancel else p
  (List.range receivers.size).foldl
    (fun p place => cancelAtLimit (r.play sources receivers p [.start place, .finish place]))
    (cancelAtLimit (begin receivers))

/-! ## The report -/

/-- Passes when all sources are in the bands of the batch. -/
def checkSources (bands : BandSet) (sources : List (PointSource α)) : Outcome α Unit :=
  sources.forM fun source => source.spectrum.ensure bands

/-- Passes when no identifier comes back; `seen` holds those that came already. -/
def checkIds (seen : List Nat) : List (Receiver α) → Outcome α Unit
  | [] => return ()
  | r :: rest => do
      require (!seen.contains r.id) (.invalid (.duplicateReceiver r.id))
      checkIds (r.id :: seen) rest

/-- The first fault that would come back for every receiver. -/
def fatalFault? (fates : List (Fate α)) : Option (Fault α) :=
  fates.findSome? fun fate =>
    match fate with
    | .evaluated (.error fault) => if fault.isFatal then some fault else none
    | _ => none

/-- The report on receivers and what became of them. -/
def report (receivers : List (Receiver α)) (fates : List (Fate α)) :
    Outcome α (Report α) := do
  match fatalFault? fates with
  | some fault => throw fault
  | none =>
      let outcomes := receivers.zip fates
      let results := outcomes.filterMap fun (r, fate) =>
        match fate with
        | .evaluated (.ok result) => some (r.id, result)
        | _ => none
      let failures := outcomes.filterMap fun (r, fate) =>
        match fate with
        | .evaluated (.error fault) => some (r.id, fault)
        | _ => none
      return {
        results := Sequence.sortOn (fun a b => compare a.1 b.1) results
        failures := Sequence.sortOn (fun a b => compare a.1 b.1) failures
        cancelled := fates.any fun fate => match fate with
          | .skipped => true
          | _ => false }

/-- Evaluates all receivers, or as many as `limit` allows. -/
def run (r : Runner α) (sources : List (PointSource α)) (receivers : List (Receiver α))
    (limit : Option Nat) : Outcome α (Report α) := do
  checkSources r.settings.bands sources
  checkIds [] receivers
  report receivers (r.playInOrder sources receivers.toArray limit).fates.toList

end Runner

end RoadNoise
