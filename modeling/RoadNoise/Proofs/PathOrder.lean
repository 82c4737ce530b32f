/-
# RoadNoise.Proofs.PathOrder -- paths in a fixed order, of one shape

Four builders make the paths: along the direct line, over the top, around both sides, and
by way of walls.  Their results come in a fixed order that the scene has no say in
(`Path.Before`): by kind, then by the number of walls, then by the walls' numbers, so that no
two paths are the same (`Scene.pairwise_paths`).  Each kind comes only where the options ask
for it and something is in the way (`Scene.callsFor_of_mem_paths`).

Whichever builder made it, a path tells its course by its events: from the source to the
receiver, with nothing but edges or nothing but walls in between, and its length is that of
the way through them (`Scene.leads_of_mem_paths`).  The path over the top is the exception that
it was for the free field: its string may let go of the receiver.
-/
import RoadNoise.Proofs.Exhaustive
import RoadNoise.Proofs.FreeField

set_option autoImplicit false

namespace RoadNoise

/-! ## The order -/

section

variable {α : Type} [Scalar α]

/-- The place of a kind in the order of the paths. -/
def PathKind.rank : PathKind → Nat
  | .direct => 0
  | .top => 1
  | .left => 2
  | .right => 3
  | .reflected order => 4 + order

/-- The first path comes before the second: by its kind or, among those off as many walls, by
the numbers of the walls. -/
def Path.Before (p q : Path α) : Prop :=
  p.kind.rank < q.kind.rank ∨
    ∃ order, p.kind = .reflected order ∧ q.kind = .reflected order ∧ p.wallNumbers < q.wallNumbers

omit [Scalar α] in
/-- No path comes before itself. -/
theorem Path.Before.ne {p q : Path α} (before : p.Before q) : p ≠ q := by
  rintro rfl
  rcases before with earlier | ⟨_, -, -, earlier⟩
  · exact lt_irrefl _ earlier
  · exact lt_irrefl _ earlier

namespace Scene

variable {s : Scene α} {source receiver : Point α} {options : PathOptions α}

/-! ### Over and around -/

theorem map_kind_topPath (c : Cut α) (directLength : α) (footing : Footing α) :
    ((c.topPath directLength footing).toList.map Path.kind).Sublist [.top] := by
  unfold Cut.topPath
  dsimp only
  split
  · exact List.nil_sublist _
  · exact .refl _

theorem map_kind_aroundPaths (obstacles : List Nat) (directLength : α) (sourceFactor : Option α) :
    ((s.aroundPaths source receiver obstacles directLength sourceFactor).map Path.kind).Sublist
      [.left, .right] := by
  unfold aroundPaths
  split
  · exact List.nil_sublist _
  · rename_i sides _
    by_cases left : 2 < sides.left.length <;> by_cases right : 2 < sides.right.length <;>
      simp [left, right, aroundPath]

/-- The paths over and around are at most one of each kind, and they are looked for only where
something is in the way. -/
theorem exists_bentPaths_eq (s : Scene α) (source receiver : Point α) (options : PathOptions α) :
    ∃ top around, s.bentPaths source receiver options = top ++ around ∧
      (top.map Path.kind).Sublist [.top] ∧ (around.map Path.kind).Sublist [.left, .right] ∧
      (top ≠ [] → options.vertical = true ∧ s.obstructed source receiver = true) ∧
      (around ≠ [] → options.horizontal = true ∧ s.obstructing source receiver ≠ []) := by
  unfold bentPaths
  dsimp only
  split
  · exact ⟨[], [], rfl, List.nil_sublist _, List.nil_sublist _, by simp, by simp⟩
  · rename_i blocked
    refine ⟨_, _, rfl, ?_, ?_, ?_, ?_⟩
    · split
      · exact map_kind_topPath _ _ _
      · exact List.nil_sublist _
    · split
      · exact map_kind_aroundPaths _ _ _
      · exact List.nil_sublist _
    · split
      · rename_i vertical
        intro _
        exact ⟨vertical, by simpa [obstructed, hides, imp_iff_not_or] using blocked⟩
      · exact fun some => absurd rfl some
    · split
      · rename_i horizontal
        intro _
        simpa using horizontal
      · exact fun some => absurd rfl some

/-- A path over or around has its kind, and the kind is called for. -/
theorem of_mem_bentPaths {path : Path α} (isPath : path ∈ s.bentPaths source receiver options) :
    path.kind = .top ∧ options.vertical = true ∧ s.obstructed source receiver = true ∨
    (path.kind = .left ∨ path.kind = .right) ∧ options.horizontal = true ∧
      s.obstructing source receiver ≠ [] := by
  obtain ⟨top, around, all, isTop, isAround, called, called'⟩ :=
    s.exists_bentPaths_eq source receiver options
  rw [all] at isPath
  rcases List.mem_append.1 isPath with member | member
  · have kind := isTop.subset (List.mem_map_of_mem member)
    exact .inl ⟨by simpa using kind, called (List.ne_nil_of_mem member)⟩
  · have kind := isAround.subset (List.mem_map_of_mem member)
    exact .inr ⟨by simpa using kind, called' (List.ne_nil_of_mem member)⟩

theorem pairwise_bentPaths (s : Scene α) (source receiver : Point α) (options : PathOptions α) :
    (s.bentPaths source receiver options).Pairwise fun p q => p.kind.rank < q.kind.rank := by
  obtain ⟨top, around, all, isTop, isAround, -⟩ := s.exists_bentPaths_eq source receiver options
  have sorted : [PathKind.top, .left, .right].Pairwise fun a b => a.rank < b.rank := by decide
  have part : ((top ++ around).map Path.kind).Sublist ([.top] ++ [.left, .right]) := by
    rw [List.map_append]
    exact isTop.append isAround
  have kinds : ((top ++ around).map Path.kind).Pairwise fun a b => a.rank < b.rank :=
    sorted.sublist part
  rw [List.pairwise_map] at kinds
  rw [all]
  exact kinds

/-! ### By way of walls -/

/-- A path by way of walls is of the order of its walls, of which there are not too many. -/
theorem of_mem_reflectedPaths {path : Path α}
    (isPath : path ∈ s.reflectedPaths source receiver options) :
    path.kind = .reflected path.wallNumbers.length ∧ 1 ≤ path.wallNumbers.length ∧
      path.wallNumbers.length ≤ options.maxOrder := by
  obtain ⟨walls, sequence, order, -, extended, made⟩ := exists_of_mem_reflectedPaths isPath
  obtain ⟨kind, numbers⟩ := wallNumbers_of_extended? extended made
  rw [numbers, List.length_map]
  exact ⟨kind, order⟩

theorem pairwise_reflectedPaths (s : Scene α) (source receiver : Point α)
    (options : PathOptions α) :
    (s.reflectedPaths source receiver options).Pairwise Path.Before := by
  have ordered := List.pairwise_map.1 (s.pairwise_wallNumbers source receiver options)
  refine ordered.imp_of_mem fun {p q} first second earlier => ?_
  obtain ⟨kind, -⟩ := of_mem_reflectedPaths first
  obtain ⟨kind', -⟩ := of_mem_reflectedPaths second
  rcases List.shortlex_def.1 earlier with fewer | ⟨asMany, lex⟩
  · left
    rw [kind, kind']
    simpa [PathKind.rank] using fewer
  · exact .inr ⟨_, kind, asMany ▸ kind', lex⟩

/-! ### All paths -/

/-- The paths come in their fixed order, none twice. -/
theorem pairwise_paths (s : Scene α) (source receiver : Point α) (options : PathOptions α) :
    (s.paths source receiver options).Pairwise Path.Before := by
  have bent : ∀ path ∈ s.bentPaths source receiver options,
      0 < path.kind.rank ∧ path.kind.rank < 4 := by
    intro path isPath
    rcases of_mem_bentPaths isPath with ⟨kind, -⟩ | ⟨kind | kind, -⟩ <;>
      simp [kind, PathKind.rank]
  have reflected : ∀ path ∈ s.reflectedPaths source receiver options, 4 ≤ path.kind.rank := by
    intro path isPath
    rw [(of_mem_reflectedPaths isPath).1]
    exact Nat.le_add_right 4 _
  have direct : (s.directPath source receiver options.sourceFactor).kind.rank = 0 := rfl
  rw [paths, List.pairwise_append, List.pairwise_cons]
  refine ⟨⟨fun path isPath => .inl ?_, ?_⟩, s.pairwise_reflectedPaths source receiver options, ?_⟩
  · rw [direct]
    exact (bent path isPath).1
  · exact (s.pairwise_bentPaths source receiver options).imp .inl
  · intro earlier isEarlier later isLater
    left
    have last := reflected later isLater
    rcases List.mem_cons.1 isEarlier with rfl | isEarlier
    · omega
    · have first := (bent earlier isEarlier).2
      omega

/-- The options ask for paths of the kind, and the scene gives reason to look for them. -/
def CallsFor (s : Scene α) (source receiver : Point α) (options : PathOptions α) :
    PathKind → Prop
  | .direct => True
  | .top => options.vertical = true ∧ s.obstructed source receiver = true
  | .left | .right => options.horizontal = true ∧ s.obstructing source receiver ≠ []
  | .reflected order => 1 ≤ order ∧ order ≤ options.maxOrder

theorem callsFor_of_mem_paths {path : Path α} (isPath : path ∈ s.paths source receiver options) :
    s.CallsFor source receiver options path.kind := by
  rcases List.mem_append.1 isPath with straight | reflected
  · rcases List.mem_cons.1 straight with rfl | bent
    · trivial
    · rcases of_mem_bentPaths bent with ⟨kind, called⟩ | ⟨kind | kind, called⟩ <;>
      · rw [kind]
        exact called
  · obtain ⟨kind, order⟩ := of_mem_reflectedPaths reflected
    rw [kind]
    exact order

end Scene

end

/-! ## The shape -/

/-- The events between the ends of a path of a kind: none along the direct line, edges over and
around, and as many walls as it is said to be by way of. -/
def PathKind.Suits : PathKind → List (PathEvent ℝ) → Prop
  | .direct, inner => inner = []
  | .reflected order, inner => inner.length = order ∧
      ∀ e ∈ inner, ∃ place number absorption, e = .reflection place number absorption
  | _, inner => inner ≠ [] ∧ ∀ e ∈ inner, ∃ place, e = .diffraction place

/-- The path leads from the source to the receiver by way of `inner`. -/
structure Path.Leads (path : Path ℝ) (source receiver : Point ℝ) (inner : List (PathEvent ℝ)) :
    Prop where
  events : path.events = .source source :: inner ++ [.receiver receiver]
  suits : path.kind.Suits inner
  direct : path.directLength = source.distance receiver

/-- The way through the events of a path. -/
def Path.way (path : Path ℝ) : List (Point ℝ) := path.events.map PathEvent.position

theorem Polyline.eq_of_ends {way : List (Point ℝ)} {a b : Point ℝ} (first : way.head? = some a)
    (last : way.getLast? = some b) (long : 2 ≤ way.length) : way = a :: inner way ++ [b] := by
  cases way with
  | nil => simp at first
  | cons c rest =>
      obtain rfl : c = a := by simpa using first
      cases rest with
      | nil => simp at long
      | cons d rest =>
          rw [List.getLast?_cons_cons] at last
          have whole := List.dropLast_append_getLast? b last
          simp only [inner, List.tail_cons, List.cons_append, whole]

theorem position_bentEvents (source receiver : Point ℝ) (edges : List (Point ℝ)) :
    (bentEvents source receiver edges).map PathEvent.position = source :: edges ++ [receiver] := by
  simp [bentEvents, PathEvent.position, Function.comp_def]

theorem suits_diffraction {kind : PathKind} (bent : kind = .top ∨ kind = .left ∨ kind = .right)
    {way : List (Point ℝ)} (long : 2 < way.length) :
    kind.Suits ((Polyline.inner way).map .diffraction) := by
  have some : (Polyline.inner way).map PathEvent.diffraction ≠ [] := by
    apply List.ne_nil_of_length_pos
    simp only [Polyline.inner, List.length_map, List.length_dropLast, List.length_tail]
    omega
  have edges : ∀ e ∈ (Polyline.inner way).map PathEvent.diffraction,
      ∃ place, e = .diffraction place := by
    intro e isEvent
    obtain ⟨place, -, rfl⟩ := List.mem_map.1 isEvent
    exact ⟨place, rfl⟩
  rcases bent with rfl | rfl | rfl <;> exact ⟨some, edges⟩

namespace Scene

variable {s : Scene ℝ} {source receiver : Point ℝ} {options : PathOptions ℝ} {path : Path ℝ}

theorem leads_directPath (s : Scene ℝ) (source receiver : Point ℝ) (sourceFactor : Option ℝ) :
    (s.directPath source receiver sourceFactor).Leads source receiver [] ∧
      (s.directPath source receiver sourceFactor).length
        = Polyline.length (s.directPath source receiver sourceFactor).way ∧
      (s.directPath source receiver sourceFactor).footing
        = s.footing (s.directPath source receiver sourceFactor).way sourceFactor := by
  refine ⟨⟨rfl, rfl, rfl⟩, ?_, rfl⟩
  have way : (s.directPath source receiver sourceFactor).way = [source, receiver] := rfl
  rw [way, Polyline.length_cons_cons, Polyline.length_singleton, add_zero]
  rfl

/-- The path over the top leads from end to end; it is as long as its string. -/
theorem leads_topPath {footing : Footing ℝ}
    (made : (s.cut source receiver).topPath (source.distance receiver) footing = some path) :
    path.kind = .top ∧ (∃ inner, path.Leads source receiver inner) ∧
      ((s.cut source receiver).tautWay.head? = some source →
        (s.cut source receiver).tautWay.getLast? = some receiver →
        path.length = Polyline.length path.way) := by
  obtain ⟨long, rfl⟩ := topPath_eq_some_iff.1 made
  refine ⟨rfl, ⟨_, rfl, suits_diffraction (.inl rfl) long, rfl⟩, fun first last => ?_⟩
  have whole := Polyline.eq_of_ends first last (by omega)
  rw [Path.way, position_bentEvents]
  exact congrArg Polyline.length whole

/-- The paths around obstacles lead from end to end, over the ground along their way. -/
theorem leads_of_mem_aroundPaths {obstacles : List Nat} {sourceFactor : Option ℝ}
    (isPath : path ∈ s.aroundPaths source receiver obstacles (source.distance receiver)
      sourceFactor) :
    (∃ inner, path.Leads source receiver inner) ∧ path.length = Polyline.length path.way ∧
      path.footing = s.footing path.way sourceFactor := by
  unfold aroundPaths at isPath
  split at isPath
  · simp at isPath
  · rename_i sides settled
    obtain ⟨all, laid⟩ := exists_of_settledSides settled
    obtain ⟨⟨kind, way⟩, side, made⟩ := List.mem_filterMap.1 isPath
    simp only [List.mem_cons, Prod.mk.injEq, List.not_mem_nil, or_false] at side
    obtain ⟨first, last⟩ := ends_of_sidesAround laid way (by
      simp only [List.mem_cons, List.not_mem_nil, or_false]
      exact side.imp And.right And.right)
    have isSide : kind = .left ∨ kind = .right := side.imp And.left And.left
    dsimp only at made
    split_ifs at made with long
    obtain rfl := Option.some.inj made
    have stop : way.getLastD source = receiver := by
      rw [List.getLastD_eq_getLast?, last, Option.getD_some]
    have isWay : (s.aroundPath kind way source (source.distance receiver) sourceFactor).way
        = way := by
      simp only [Path.way, aroundPath, stop, position_bentEvents]
      exact (Polyline.eq_of_ends first last (by omega)).symm
    refine ⟨⟨_, ?_, suits_diffraction (.inr isSide) long, rfl⟩, ?_, ?_⟩
    · simp only [aroundPath, stop]
      rfl
    · rw [isWay]
      rfl
    · rw [isWay]
      rfl

/-- Events that stand at the second parts of pairs have their places. -/
theorem position_zip {γ : Type} {event : γ × Point ℝ → PathEvent ℝ}
    (stands : ∀ pair, (event pair).position = pair.2) {walls : List γ} {places : List (Point ℝ)}
    (enough : places.length ≤ walls.length) :
    ((walls.zip places).map event).map PathEvent.position = places := by
  have second : PathEvent.position ∘ event = Prod.snd := funext stands
  rw [List.map_map, second, List.map_snd_zip enough]

/-- The paths by way of walls lead from end to end, over the ground along their way. -/
theorem leads_of_mem_reflectedPaths (isPath : path ∈ s.reflectedPaths source receiver options) :
    (∃ inner, path.Leads source receiver inner) ∧ path.length = Polyline.length path.way ∧
      path.footing = s.footing path.way options.sourceFactor := by
  obtain ⟨walls, sequence, -, -, -, made⟩ := exists_of_mem_reflectedPaths isPath
  obtain ⟨way, unfolded, rfl⟩ := Option.map_eq_some_iff.1 made
  obtain ⟨points, walked, rfl, -⟩ := unfoldedWay?_eq_some_iff.1 unfolded
  have places : (Polyline.inner (Polyline.graded (source :: points ++ [receiver]))).length
      = sequence.reverse.length := by
    simp [Polyline.inner, Polyline.length_graded, length_walkBack walked]
  have isWay : (PathEvent.source source :: ((sequence.reverse.zip (Polyline.inner
      (Polyline.graded (source :: points ++ [receiver])))).map fun e : Bounce ℝ × Point ℝ =>
        PathEvent.reflection e.2 e.1.number e.1.wall.absorption)
          ++ [PathEvent.receiver receiver]).map PathEvent.position
        = Polyline.graded (source :: points ++ [receiver]) := by
    rw [List.map_append, List.map_cons, position_zip (fun _ => rfl) places.le]
    exact (Polyline.graded_eq source receiver points).symm
  refine ⟨⟨_, rfl, ⟨?_, ?_⟩, rfl⟩, congrArg Polyline.length isWay.symm,
    congrArg (s.footing · options.sourceFactor) isWay.symm⟩
  · rw [List.length_map, List.length_zip, places, min_self, List.length_reverse]
  · intro e isEvent
    obtain ⟨⟨b, place⟩, -, rfl⟩ := List.mem_map.1 isEvent
    exact ⟨_, _, _, rfl⟩

/-- Every path leads from the source to the receiver, and it is as long as the way through
its events, unless it leads over the top along a cut with inside parts beyond its ends. -/
theorem leads_of_mem_paths (apart : 1 ≤ source.planarDistance receiver)
    (isPath : path ∈ s.paths source receiver options) :
    (∃ inner, path.Leads source receiver inner) ∧
      ((path.kind = .top → s.PartsOnSegment source receiver) →
        path.length = Polyline.length path.way) := by
  have small := Scalar.eps_lt_one
  rcases cases_of_mem_paths isPath with rfl | top | around | reflected
  · obtain ⟨leads, length, -⟩ := s.leads_directPath source receiver options.sourceFactor
    exact ⟨⟨_, leads⟩, fun _ => length⟩
  · obtain ⟨kind, leads, length⟩ := leads_topPath top
    refine ⟨leads, fun onSegment => ?_⟩
    obtain ⟨first, last⟩ := Cut.ends_tautWay (c := s.cut source receiver) (small.le.trans apart)
      (crestsBetween apart (onSegment kind))
    exact length first last
  · obtain ⟨leads, length, -⟩ := leads_of_mem_aroundPaths around
    exact ⟨leads, fun _ => length⟩
  · obtain ⟨leads, length, -⟩ := leads_of_mem_reflectedPaths reflected
    exact ⟨leads, fun _ => length⟩

end Scene

/-- Whatever the numbers, the paths that are found begin with the direct one and come in their
fixed order, none twice, and each kind only where it is called for.  At the real numbers
every path leads from the source to the receiver by way of what its kind says, and it is as
long as the way through its events, unless it leads over the top along a cut with inside
parts beyond its ends. -/
theorem paths_ordered (α : Type) [Scalar α] :
    (∀ (s : Scene α) (source receiver : Point α) (options : PathOptions α)
      (paths : List (Path α)), s.findPaths source receiver options = .ok paths →
      (∃ direct rest, paths = direct :: rest ∧ direct.kind = .direct) ∧
      paths.Pairwise Path.Before ∧ paths.Nodup ∧
      ∀ path ∈ paths, s.CallsFor source receiver options path.kind) ∧
    ∀ (s : Scene ℝ) (source receiver : Point ℝ) (options : PathOptions ℝ) (paths : List (Path ℝ)),
      s.findPaths source receiver options = .ok paths → 1 ≤ source.planarDistance receiver →
      ∀ path ∈ paths, (∃ inner, path.Leads source receiver inner) ∧
        ((path.kind = .top → s.PartsOnSegment source receiver) →
          path.length = Polyline.length path.way) := by
  constructor
  · intro s source receiver options paths found
    obtain ⟨_, -, found⟩ := bind_eq_ok_iff.1 found
    obtain rfl : s.paths source receiver options = paths := Except.ok.inj found
    have ordered := s.pairwise_paths source receiver options
    exact ⟨⟨_, _, rfl, rfl⟩, ordered, ordered.imp Path.Before.ne,
      fun path isPath => Scene.callsFor_of_mem_paths isPath⟩
  · intro s source receiver options paths found apart path isPath
    obtain ⟨-, rfl⟩ := Scene.findPaths_eq_ok_iff.1 found
    exact Scene.leads_of_mem_paths apart isPath

/-- The string over the hook lets go of the receiver, which the events still name, so the path
is a kilometre shorter than the way through them. -/
theorem hook_lets_go :
    hookDraft.Made ∧ 1 ≤ hookSource.planarDistance hookReceiver ∧
      ∃ paths, hookDraft.finish.findPaths hookSource hookReceiver .standard = .ok paths ∧
        ∃ path ∈ paths, path.length ≠ Polyline.length path.way := by
  have direct := hook_distance
  have short := hook_tautWay_length
  have blocked : (hookDraft.finish.obstructing hookSource hookReceiver).isEmpty = false :=
    List.isEmpty_eq_false_iff_exists_mem.2 ⟨0, hook_obstructs⟩
  refine ⟨hookDraft_made, hook_length.ge, _, bind_eq_ok_iff.2 ⟨(), hook_accepted, rfl⟩, ?_⟩
  obtain ⟨path, top⟩ : ∃ path, (hookDraft.finish.cut hookSource hookReceiver).topPath
      (hookSource.distance hookReceiver)
      (hookDraft.finish.footing [hookSource, hookReceiver] PathOptions.standard.sourceFactor)
        = some path := by
    simp [Cut.topPath, hook_tautWay]
  refine ⟨path, ?_, ?_⟩
  · refine List.mem_append_left _ (List.mem_cons_of_mem _ ?_)
    simp only [Scene.bentPaths, blocked, Bool.false_and, Bool.false_eq_true, if_false]
    exact List.mem_append_left _ (by simpa [PathOptions.standard] using top)
  · obtain ⟨-, ⟨inner, leads⟩, -⟩ := Scene.leads_topPath top
    have ends : hookSource.distance hookReceiver ≤ Polyline.length path.way := by
      apply Polyline.distance_le_length_of_ends
      · rw [Path.way, leads.events]
        rfl
      · rw [Path.way, leads.events, List.map_append]
        exact List.getLast?_concat
    rw [(Scene.topPath_eq_some top).2.1]
    exact ne_of_lt (by linarith)

end RoadNoise
