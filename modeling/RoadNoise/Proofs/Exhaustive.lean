/-
# RoadNoise.Proofs.Exhaustive -- no sequence of walls is missed

The paths by way of walls are those that a plain search finds: make every sequence of
candidate walls, drop those that repeat a wall, have a wall without an image or a wall
that turns its back on the image before it, and unfold what is left.  The search knows no
stack and leaves no branch early.  Sequences come by length and then in the order of the
wall numbers, so none comes twice (`pairwise_wallNumbers`).

Whether a wall is near enough is asked of the grid.  At the real numbers that is the same
as asking every wall.
-/
import RoadNoise.Proofs.Graded
import RoadNoise.Proofs.Lookup
import RoadNoise.Proofs.Visit

set_option autoImplicit false

namespace RoadNoise

variable {α : Type} [Scalar α]

/-- The number of the wall that an event reflects off. -/
def PathEvent.wallNumber? : PathEvent α → Option Nat
  | .reflection _ number _ => some number
  | _ => none

/-- The numbers of the walls that a path is reflected by, in order. -/
def Path.wallNumbers (p : Path α) : List Nat := p.events.filterMap PathEvent.wallNumber?

namespace Scene

/-! ## The plain search -/

/-- The grid finds the wall near the source or near the receiver. -/
def foundNear (s : Scene α) (source receiver : Point α) (distance : α) (w : Nat) : Bool :=
  (s.wallsNear source distance).contains w || (s.wallsNear receiver distance).contains w

/-- The wall lies near the source or near the receiver. -/
def liesNear (s : Scene α) (source receiver : Point α) (distance : α) (w : Nat) : Bool :=
  s.wallWithin source distance w || s.wallWithin receiver distance w

/-- The wall of that number, if it is near and does not swallow all. -/
def candidate? (s : Scene α) (near : Nat → Bool) (w : Nat) : Option (Nat × Wall α) :=
  match s.walls[w]? with
  | some wall => if near w && decide (wall.absorption < 1) then some (w, wall) else none
  | none => none

/-- The walls that are near and do not swallow all, by number. -/
def candidates (s : Scene α) (near : Nat → Bool) : List (Nat × Wall α) :=
  (List.range s.walls.size).filterMap (s.candidate? near)

/-- The bounces off a sequence of walls, if no wall comes twice in a row, every wall has an
image, and each faces the image in the walls before it. -/
def bouncesOff? (s : Scene α) (source : Point α) (walls : List (Nat × Wall α)) :
    Option (List (Bounce α)) :=
  (images? source (walls.map Prod.snd)).bind fun images =>
    if (walls.map Prod.fst).IsChain (· ≠ ·) ∧
        ∀ e ∈ walls.zip (source :: images), s.faces e.1.2 e.2 = true then
      some (walls.zipWith (fun w image => ⟨w.1, w.2, image⟩) images)
    else none

/-- The paths over all sequences of candidates, the shorter ones first. -/
def searchedPaths (s : Scene α) (near : Nat → Bool) (source receiver : Point α)
    (options : PathOptions α) : List (Path α) :=
  (List.range options.maxOrder).flatMap fun n =>
    ((Sequence.ofLength (s.candidates near) (n + 1)).filterMap (s.bouncesOff? source)).filterMap
      fun bounces => s.reflectedPath? source receiver options.sourceFactor bounces.reverse

variable {s : Scene α} {source receiver : Point α}

/-- A sequence can be put on an empty stack wall by wall if it passes as a whole. -/
theorem extended?_nil_eq (walls : List (Nat × Wall α)) :
    s.extended? source [] walls = (s.bouncesOff? source walls).map List.reverse := by
  ext whole
  rw [extended?_eq_some_iff, Option.map_eq_some_iff]
  constructor
  · rintro ⟨-, chain, images, made, facing, rfl⟩
    refine ⟨_, Option.bind_eq_some_iff.2 ⟨images, made, if_pos ⟨chain, facing⟩⟩, ?_⟩
    rw [List.append_nil]
  · rintro ⟨bounces, made, rfl⟩
    obtain ⟨images, imaged, passed⟩ := Option.bind_eq_some_iff.1 made
    split_ifs at passed with passes
    obtain rfl := Option.some.inj passed
    exact ⟨by simp, passes.1, images, imaged, passes.2, by rw [List.append_nil]⟩

/-- Entries are made of the numbers that are listed. -/
theorem filterMap_eq_filterMap_range {β : Type} {l : List Nat} {n : Nat} {f : Nat → Option β}
    (ascending : l.Pairwise (· < ·)) (beyond : ∀ k, n ≤ k → f k = none) :
    l.filterMap f = (List.range n).filterMap fun k => if l.contains k then f k else none := by
  have same : l.filter (fun k => l.contains k && decide (k < n))
      = (List.range n).filter fun k => l.contains k && decide (k < n) :=
    filter_eq_filter_range ascending fun k kept => by
      simp only [Bool.and_eq_true, List.contains_iff_mem, decide_eq_true_eq] at kept
      exact iff_of_true kept.1 kept.2
  have listed : l.filterMap f = (l.filter fun k => l.contains k && decide (k < n)).filterMap f := by
    rw [List.filterMap_filter]
    refine List.filterMap_congr fun k entry => ?_
    by_cases inRange : k < n
    · simp [entry, inRange]
    · simp [inRange, beyond k (not_lt.1 inRange)]
  rw [listed, same, List.filterMap_filter]
  refine List.filterMap_congr fun k inRange => ?_
  simp only [List.mem_range.1 inRange, decide_true, Bool.and_true]

/-- The walls that may reflect are the candidates among those the grid finds. -/
theorem reflectors_eq (s : Scene α) (source receiver : Point α) (distance : α) :
    s.reflectors source receiver distance
      = s.candidates (s.foundNear source receiver distance) := by
  have listed : ∀ w, (Sequence.ascending (s.wallsNear source distance ++
      s.wallsNear receiver distance)).contains w = s.foundNear source receiver distance w := by
    intro w
    rw [Bool.eq_iff_iff, List.contains_iff_mem, Sequence.mem_ascending, List.mem_append, foundNear,
      Bool.or_eq_true, List.contains_iff_mem, List.contains_iff_mem]
  rw [reflectors, filterMap_eq_filterMap_range (n := s.walls.size) (Sequence.pairwise_ascending _),
    candidates]
  · refine List.filterMap_congr fun w _ => ?_
    rw [listed, candidate?]
    cases s.walls[w]? with
    | none => simp
    | some wall => cases s.foundNear source receiver distance w <;> simp
  · intro w beyond
    simp [Array.getElem?_eq_none beyond]

theorem candidates_congr {near near' : Nat → Bool} (same : ∀ w < s.walls.size, near w = near' w) :
    s.candidates near = s.candidates near' := by
  refine List.filterMap_congr fun w inRange => ?_
  rw [candidate?, candidate?, same w (List.mem_range.1 inRange)]

theorem reflectedPaths_eq_searchedPaths (s : Scene α) (source receiver : Point α)
    (options : PathOptions α) : s.reflectedPaths source receiver options
      = s.searchedPaths (s.foundNear source receiver options.maxReflectionDistance) source receiver
          options := by
  rw [reflectedPaths_eq, searchedPaths, ← reflectors_eq]
  refine List.flatMap_congr fun n _ => ?_
  simp only [List.filterMap_filterMap, extended?_nil_eq, Option.bind_map]
  rfl

/-! ## What a path tells -/

/-- A path over a sequence has its order and names its walls, first wall first. -/
theorem wallNumbers_of_reflectedPath? {sourceFactor : Option α} {sequence : List (Bounce α)}
    {path : Path α}
    (made : s.reflectedPath? source receiver sourceFactor sequence = some path) :
    path.kind = .reflected sequence.length ∧
      path.wallNumbers = sequence.reverse.map Bounce.number := by
  obtain ⟨way, unfolded, rfl⟩ := Option.map_eq_some_iff.1 made
  obtain ⟨points, walked, rfl, -⟩ := unfoldedWay?_eq_some_iff.1 unfolded
  refine ⟨rfl, ?_⟩
  have inner : (Polyline.inner (Polyline.graded (source :: points ++ [receiver]))).length
      = sequence.reverse.length := by
    simp [Polyline.inner, Polyline.length_graded, length_walkBack walked]
  have numbers : ∀ (bounces : List (Bounce α)) (places : List (Point α)),
      places.length = bounces.length →
      ((bounces.zip places).map fun e =>
        PathEvent.reflection e.2 e.1.number e.1.wall.absorption).filterMap PathEvent.wallNumber?
          = bounces.map Bounce.number := by
    intro bounces
    induction bounces with
    | nil => simp
    | cons b bounces ih =>
        intro places length
        cases places with
        | nil => simp at length
        | cons p places => simpa [PathEvent.wallNumber?] using ih places (by simpa using length)
  simp only [Path.wallNumbers, List.cons_append, List.filterMap_cons, List.filterMap_append,
    List.filterMap_nil, List.append_nil, PathEvent.wallNumber?]
  exact numbers _ _ inner

theorem wallNumbers_of_extended? {sourceFactor : Option α} {walls : List (Nat × Wall α)}
    {sequence : List (Bounce α)} {path : Path α}
    (extended : s.extended? source [] walls = some sequence)
    (made : s.reflectedPath? source receiver sourceFactor sequence = some path) :
    path.kind = .reflected walls.length ∧ path.wallNumbers = walls.map Prod.fst := by
  obtain ⟨kind, numbers⟩ := wallNumbers_of_reflectedPath? made
  have same := walls_of_extended? extended
  rw [List.reverse_nil, List.map_nil, List.nil_append] at same
  rw [kind, numbers, ← same]
  simp

/-! ## Order -/

theorem pairwise_candidates (s : Scene α) (near : Nat → Bool) :
    (s.candidates near).Pairwise fun a b => a.1 < b.1 := by
  refine List.pairwise_filterMap.2 (List.pairwise_lt_range.imp fun below a first b second => ?_)
  have number : ∀ {w : Nat} {c : Nat × Wall α}, s.candidate? near w = some c → c.1 = w := by
    intro w c kept
    unfold candidate? at kept
    split at kept
    · split_ifs at kept
      rw [← Option.some.inj kept]
    · simp at kept
  rw [number first, number second]
  exact below

/-- Paths come by the number of their walls and then by the walls' numbers, none twice. -/
theorem pairwise_wallNumbers (s : Scene α) (source receiver : Point α) (options : PathOptions α) :
    ((s.reflectedPaths source receiver options).map Path.wallNumbers).Pairwise
      (List.Shortlex (· < ·)) := by
  rw [List.pairwise_map, reflectedPaths_eq, reflectors_eq]
  refine List.pairwise_flatMap.2 ⟨fun n _ => ?_, List.pairwise_lt_range.imp ?_⟩
  · -- of one length, the sequences are in the order of their numbers
    rw [List.filterMap_filterMap, List.pairwise_filterMap]
    have ordered := Sequence.pairwise_ofLength Prod.fst (s.pairwise_candidates
      (s.foundNear source receiver options.maxReflectionDistance)) (n + 1)
    refine ordered.imp_of_mem fun {u v} first second earlier => ?_
    intro a made b made'
    obtain ⟨x, extended, made⟩ := Option.bind_eq_some_iff.1 made
    obtain ⟨y, extended', made'⟩ := Option.bind_eq_some_iff.1 made'
    rw [(wallNumbers_of_extended? extended made).2, (wallNumbers_of_extended? extended' made').2]
    refine .of_lex ?_ earlier
    rw [List.length_map, List.length_map, (Sequence.mem_ofLength.1 first).1,
      (Sequence.mem_ofLength.1 second).1]
  · intro m n shorter a first b second
    have length : ∀ {k : Nat} {path : Path α}, path ∈ ((Sequence.ofLength (s.candidates
        (s.foundNear source receiver options.maxReflectionDistance)) (k + 1)).filterMap
          (s.extended? source [])).filterMap
            (s.reflectedPath? source receiver options.sourceFactor) →
        path.wallNumbers.length = k + 1 := by
      intro k path isPath
      obtain ⟨sequence, continued, made⟩ := List.mem_filterMap.1 isPath
      obtain ⟨walls, listed, extended⟩ := List.mem_filterMap.1 continued
      rw [(wallNumbers_of_extended? extended made).2, List.length_map,
        (Sequence.mem_ofLength.1 listed).1]
    refine .of_length_lt ?_
    rw [length first, length second]
    omega

end Scene

/-! ## The search is exhaustive -/

/-- In a finished scene the grid finds the near walls. -/
theorem Draft.candidates_foundNear (d : Draft ℝ) (source receiver : Point ℝ) (distance : ℝ) :
    d.finish.candidates (d.finish.foundNear source receiver distance)
      = d.finish.candidates (d.finish.liesNear source receiver distance) := by
  refine Scene.candidates_congr fun w inRange => ?_
  have plain : ∀ p : Point ℝ, (d.finish.wallsNear p distance).contains w
      = d.finish.wallWithin p distance w := by
    intro p
    rw [Bool.eq_iff_iff, List.contains_iff_mem, Draft.finish_wallsNear, Scene.plainWallsNear,
      List.mem_filter, List.mem_range]
    exact and_iff_right inRange
  rw [Scene.foundNear, Scene.liesNear, plain, plain]

/-- Visiting with a stack finds the paths of the plain search, in its order: those over all
sequences of near walls, by length and by wall numbers, none twice.  Every path has as many
reflections as its order says and names its walls in order, and every visit hands its stack
back as it was.  At the real numbers the near walls are those of a plain scan. -/
theorem reflectedPaths_exhaustive :
    (∀ {α : Type} [Scalar α] (s : Scene α) (source receiver : Point α) (options : PathOptions α),
      s.reflectedPaths source receiver options
        = s.searchedPaths (s.foundNear source receiver options.maxReflectionDistance) source
            receiver options ∧
      ((s.reflectedPaths source receiver options).map Path.wallNumbers).Pairwise
        (List.Shortlex (· < ·)) ∧
      (∀ path ∈ s.reflectedPaths source receiver options, ∃ walls : List (Nat × Wall α),
        (1 ≤ walls.length ∧ walls.length ≤ options.maxOrder) ∧
        (∀ w ∈ walls, w ∈ s.reflectors source receiver options.maxReflectionDistance) ∧
        path.kind = .reflected walls.length ∧ path.wallNumbers = walls.map Prod.fst) ∧
      ∀ {β : Type} (candidates : List (Nat × Wall α)) (emit : List (Bounce α) → List β) (more : Nat)
        (stack : List (Bounce α)), (s.visit candidates source emit more stack).2 = stack) ∧
    ∀ (d : Draft ℝ) (source receiver : Point ℝ) (options : PathOptions ℝ),
      d.finish.reflectedPaths source receiver options
        = d.finish.searchedPaths (d.finish.liesNear source receiver options.maxReflectionDistance)
            source receiver options := by
  refine ⟨fun s source receiver options => ⟨?_, ?_, ?_, ?_⟩, fun d source receiver options => ?_⟩
  · exact s.reflectedPaths_eq_searchedPaths source receiver options
  · exact s.pairwise_wallNumbers source receiver options
  · intro path isPath
    obtain ⟨walls, sequence, order, candidates, extended, made⟩ :=
      Scene.exists_of_mem_reflectedPaths isPath
    exact ⟨walls, order, candidates, Scene.wallNumbers_of_extended? extended made⟩
  · intro β candidates emit more stack
    rw [Scene.visit_eq]
  · rw [Scene.reflectedPaths_eq_searchedPaths, Scene.searchedPaths, Scene.searchedPaths,
      d.candidates_foundNear]

end RoadNoise
