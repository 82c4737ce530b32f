/-
# RoadNoise.Proofs.Ways -- every way leads from the source to the receiver

A way is at least as long as the straight line between its ends, so what has to be
shown of a way is where it begins and ends.  Grading a way moves neither end, which
settles the ways around obstacles and by way of walls.  The way over the top is a
taut string, and it ends at the receiver unless a crest lies within the tolerance of
it.
-/
import RoadNoise.Proofs.Graded
import RoadNoise.Loss.Score
import RoadNoise.Proofs.Taut
import RoadNoise.Proofs.Visit
import RoadNoise.Ray.Search

set_option autoImplicit false

namespace RoadNoise

/-! ## Ways between two places -/

namespace Polyline

theorem distance_le_length_of_ends {way : List (Point ℝ)} {a b : Point ℝ}
    (first : way.head? = some a) (last : way.getLast? = some b) : a.distance b ≤ length way := by
  cases way with
  | nil => simp at first
  | cons c rest =>
      obtain rfl : c = a := by simpa using first
      obtain rfl : rest.getLastD c = b := by
        rw [List.getLastD_eq_getLast?]
        cases rest with
        | nil => simpa using last
        | cons d rest =>
            rw [List.getLast?_cons_cons] at last
            rw [last, Option.getD_some]
      exact distance_le_length c rest

end Polyline

/-! ## Events -/

/-- Bending over edges meets no wall. -/
theorem absorption?_bentEvents (source receiver : Point ℝ) (edges : List (Point ℝ)) :
    (bentEvents source receiver edges).filterMap PathEvent.absorption? = [] := by
  simp [bentEvents, PathEvent.absorption?, List.filterMap_cons, List.filterMap_append,
    List.filterMap_map, Function.comp_def]

/-! ## Over the top -/

namespace Cut

variable {c : Cut ℝ}

/-- All crests lie between the ends, and none within the tolerance of the second. -/
def CrestsBetween (c : Cut ℝ) : Prop :=
  ∀ crest ∈ c.crests, 0 < crest.1 ∧ crest.1 + Scalar.eps ≤ c.length

theorem pointAt_zero (c : Cut ℝ) : c.pointAt 0 c.p1.z = c.p1 := by
  have start : (if 0 < c.length then 0 / c.length else 0) = (0 : ℝ) := by simp
  simp only [pointAt, start, Point.between_zero]
  rfl

theorem pointAt_length (long : 0 < c.length) : c.pointAt c.length c.p2.z = c.p2 := by
  simp only [pointAt, if_pos long, div_self long.ne', Point.between_one]
  rfl

/-- The pegs of the crests, numbered after the source. -/
noncomputable def crestPegs (c : Cut ℝ) : List (Hull.Peg ℝ) :=
  (c.crests.zipIdx 1).map fun ((x, h), i) => ⟨i, x, h⟩

theorem taut_eq (c : Cut ℝ) : Hull.taut c.profilePoints
    = (((Sequence.sortOn Hull.Peg.order (⟨0, 0, c.p1.z⟩ :: (c.crestPegs
        ++ [⟨c.crests.length + 1, c.length, c.p2.z⟩]))).foldl Hull.Peg.hang []).reverse).map
          Hull.Peg.place := by
  have pegs : (c.profilePoints.zipIdx.map fun ((x, h), i) => (⟨i, x, h⟩ : Hull.Peg ℝ))
      = ⟨0, 0, c.p1.z⟩ :: (c.crestPegs ++ [⟨c.crests.length + 1, c.length, c.p2.z⟩]) := by
    simp [profilePoints, crestPegs, List.zipIdx_cons, List.zipIdx_append, add_comm]
  rw [← pegs]
  rfl

theorem ends_taut (long : Scalar.eps ≤ c.length) (between : c.CrestsBetween) :
    (Hull.taut c.profilePoints).head? = some 0 ∧
      (Hull.taut c.profilePoints).getLast? = some (c.crests.length + 1) := by
  have positive := Scalar.eps_pos
  have crest : ∀ b ∈ c.crestPegs, 0 < b.abscissa ∧ b.abscissa + Scalar.eps ≤ c.length := by
    intro b peg
    obtain ⟨⟨⟨x, h⟩, i⟩, entry, rfl⟩ := List.mem_map.1 peg
    exact between (x, h) (List.fst_mem_of_mem_zipIdx entry)
  have sorted := Hull.Peg.pairwise_abscissa_sortOn
    (⟨0, 0, c.p1.z⟩ :: (c.crestPegs ++ [⟨c.crests.length + 1, c.length, c.p2.z⟩]))
  have perm := Sequence.sortOn_perm Hull.Peg.order
    (⟨0, 0, c.p1.z⟩ :: (c.crestPegs ++ [⟨c.crests.length + 1, c.length, c.p2.z⟩]))
  rw [taut_eq]
  -- the source comes first, the receiver last, and the crests stay clear of it
  obtain ⟨rest, isRest, restPerm⟩ := Sequence.exists_cons_of_least sorted perm (by
    intro b peg
    rcases List.mem_append.1 peg with inner | last
    · exact (crest b inner).1
    · rw [List.mem_singleton.1 last]
      exact positive.trans_le long)
  rw [isRest] at sorted ⊢
  obtain ⟨mid, rfl, midPerm⟩ := Sequence.exists_concat_of_greatest
    (List.pairwise_cons.1 sorted).2 restPerm (by
      intro b inner
      have := (crest b inner).2
      dsimp only
      linarith)
  have clear : Hull.Peg.ClearOf ⟨c.crests.length + 1, c.length, c.p2.z⟩
      (⟨0, 0, c.p1.z⟩ :: mid) := by
    intro b peg
    rw [Scalar.near_eq_false_iff, abs_sub_comm]
    refine le_trans ?_ (le_abs_self _)
    rcases List.mem_cons.1 peg with rfl | inner
    · simpa using long
    · have := (crest b (midPerm.mem_iff.1 inner)).2
      linarith
  obtain ⟨first, last⟩ := Hull.Peg.ends_foldl_hang _ _ mid clear
  rw [List.cons_append] at first last
  rw [List.head?_map, List.head?_reverse, first, List.getLast?_map, List.getLast?_reverse, last]
  exact ⟨rfl, rfl⟩

/-- The way over the top leads from the source to the receiver. -/
theorem ends_tautWay (long : Scalar.eps ≤ c.length) (between : c.CrestsBetween) :
    c.tautWay.head? = some c.p1 ∧ c.tautWay.getLast? = some c.p2 := by
  have positive := Scalar.eps_pos
  obtain ⟨first, last⟩ := ends_taut long between
  have start : (c.profilePoints.toArray[0]?).map (fun (d, z) => c.pointAt d z) = some c.p1 := by
    simp [profilePoints, pointAt_zero]
  have stop : (c.profilePoints.toArray[c.crests.length + 1]?).map (fun (d, z) => c.pointAt d z)
      = some c.p2 := by
    simp [profilePoints, pointAt_length (positive.trans_le long)]
  unfold tautWay
  dsimp only
  constructor
  · obtain ⟨rest, eq⟩ : ∃ rest, Hull.taut c.profilePoints = 0 :: rest := by
      cases taut : Hull.taut c.profilePoints with
      | nil => simp [taut] at first
      | cons i rest => exact ⟨rest, by simpa [taut] using first⟩
    rw [eq, List.filterMap_cons, start]
    rfl
  · obtain ⟨front, eq⟩ := List.getLast?_eq_some_iff.1 last
    rw [eq, List.filterMap_append, List.filterMap_cons, stop]
    simp

end Cut

/-! ## Around obstacles -/

namespace Scene

variable {s : Scene ℝ} {source receiver : Point ℝ}

theorem graded_ends (source receiver : Point ℝ) (points : List (Point ℝ)) :
    (Polyline.graded (source :: points ++ [receiver])).head? = some source ∧
      (Polyline.graded (source :: points ++ [receiver])).getLast? = some receiver := by
  rw [Polyline.head?_graded, Polyline.getLast?_graded]
  exact ⟨rfl, List.getLast?_concat⟩

theorem ends_of_sidesAround {included : List Nat} {sides : Sides ℝ}
    (laid : s.sidesAround source receiver included = some sides) :
    ∀ way ∈ [sides.left, sides.right], way.head? = some source ∧ way.getLast? = some receiver := by
  unfold sidesAround at laid
  dsimp only at laid
  split at laid
  · obtain rfl := Option.some.inj laid
    intro way side
    simp only [List.mem_cons, List.not_mem_nil, or_false] at side
    rcases side with rfl | rfl
    · exact graded_ends source receiver _
    · exact graded_ends source receiver _
  · simp at laid

/-- The settled sides were laid around some set of buildings. -/
theorem exists_of_settledSides {included : List Nat} {sides : Sides ℝ}
    (settled : s.settledSides source receiver included = some sides) :
    ∃ all, s.sidesAround source receiver all = some sides := by
  fun_induction settledSides s source receiver included with
  | case1 included none => simp at settled
  | case2 included first laid met =>
      obtain rfl := Option.some.inj settled
      exact ⟨included, laid⟩
  | case3 included first laid b more met ih => exact ih settled

theorem le_length_of_mem_aroundPaths {obstacles : List Nat} {directLength : ℝ}
    {sourceFactor : Option ℝ} {path : Path ℝ}
    (isPath : path ∈ s.aroundPaths source receiver obstacles directLength sourceFactor) :
    source.distance receiver ≤ path.length ∧ path.directLength = directLength ∧
      path.absorptions = [] := by
  unfold aroundPaths at isPath
  split at isPath
  · simp at isPath
  · rename_i sides settled
    obtain ⟨all, laid⟩ := exists_of_settledSides settled
    obtain ⟨⟨kind, way⟩, side, made⟩ := List.mem_filterMap.1 isPath
    have ends := ends_of_sidesAround laid way (by
      simp only [List.mem_cons, Prod.mk.injEq, List.not_mem_nil, or_false] at side ⊢
      exact side.imp And.right And.right)
    dsimp only at made
    split_ifs at made
    obtain rfl := Option.some.inj made
    exact ⟨Polyline.distance_le_length_of_ends ends.1 ends.2, rfl, absorption?_bentEvents _ _ _⟩

/-! ## By way of walls -/

theorem le_length_of_mem_reflectedPaths {options : PathOptions ℝ} {path : Path ℝ}
    (isPath : path ∈ s.reflectedPaths source receiver options) :
    source.distance receiver ≤ path.length ∧ path.directLength = source.distance receiver ∧
      ∀ a ∈ path.absorptions, ∃ wall ∈ s.walls, wall.absorption = a ∧ a < 1 := by
  obtain ⟨walls, sequence, -, candidates, extended, made⟩ := exists_of_mem_reflectedPaths isPath
  obtain ⟨way, unfolded, rfl⟩ := Option.map_eq_some_iff.1 made
  obtain ⟨points, -, rfl, -⟩ := unfoldedWay?_eq_some_iff.1 unfolded
  obtain ⟨first, last⟩ := graded_ends source receiver points
  refine ⟨Polyline.distance_le_length_of_ends first last, rfl, ?_⟩
  intro a absorbed
  simp only [Path.absorptions, List.cons_append, List.filterMap_cons, List.filterMap_append,
    PathEvent.absorption?, List.filterMap_nil, List.append_nil, List.mem_filterMap,
    List.mem_map] at absorbed
  obtain ⟨event, ⟨⟨b, p⟩, bounce, rfl⟩, absorbed⟩ := absorbed
  obtain rfl := Option.some.inj absorbed
  have member : (b.number, b.wall) ∈ walls := by
    rw [← List.nil_append walls, ← List.map_nil, ← List.reverse_nil, ← walls_of_extended? extended]
    exact List.mem_map_of_mem (List.of_mem_zip bounce).1
  obtain ⟨-, entry, reflects⟩ := mem_reflectors.1 (candidates _ member)
  exact ⟨b.wall, Array.mem_of_getElem? entry, rfl, reflects⟩

/-! ## All paths -/

theorem cases_of_mem_paths {options : PathOptions ℝ} {path : Path ℝ}
    (isPath : path ∈ s.paths source receiver options) :
    path = s.directPath source receiver options.sourceFactor ∨
    (s.cut source receiver).topPath (source.distance receiver)
      (s.footing [source, receiver] options.sourceFactor) = some path ∨
    path ∈ s.aroundPaths source receiver (s.obstructing source receiver)
      (source.distance receiver) options.sourceFactor ∨
    path ∈ s.reflectedPaths source receiver options := by
  rcases List.mem_append.1 isPath with straight | reflected
  · rcases List.mem_cons.1 straight with rfl | bent
    · exact .inl rfl
    · unfold bentPaths at bent
      dsimp only at bent
      split at bent
      · simp at bent
      · rcases List.mem_append.1 bent with top | around
        · split at top
          · exact .inr (.inl (Option.mem_toList.1 top))
          · simp at top
        · split at around
          · exact .inr (.inr (.inl around))
          · simp at around
  · exact .inr (.inr (.inr reflected))

/-- The path over the top is over the taut way, wherever that bends. -/
theorem topPath_eq_some_iff {c : Cut ℝ} {directLength : ℝ} {footing : Footing ℝ} {path : Path ℝ} :
    c.topPath directLength footing = some path ↔ 2 < c.tautWay.length ∧
      path = { kind := .top
               events := bentEvents c.p1 c.p2 (Polyline.inner c.tautWay)
               length := Polyline.length c.tautWay
               directLength := directLength
               detour := some (Detour.ofWay c.tautWay directLength)
               footing := footing } := by
  unfold Cut.topPath
  dsimp only
  split_ifs with short
  · simp [Nat.le_of_lt_succ short]
  · simp [Nat.lt_of_succ_le (Nat.not_lt.1 short), eq_comm]

theorem topPath_eq_some {c : Cut ℝ} {directLength : ℝ} {footing : Footing ℝ} {path : Path ℝ}
    (made : c.topPath directLength footing = some path) :
    path.kind = .top ∧ path.length = Polyline.length c.tautWay ∧
      path.directLength = directLength ∧ path.absorptions = [] := by
  obtain ⟨-, rfl⟩ := topPath_eq_some_iff.1 made
  exact ⟨rfl, rfl, rfl, absorption?_bentEvents _ _ _⟩

theorem directLength_eq {options : PathOptions ℝ} {path : Path ℝ}
    (isPath : path ∈ s.paths source receiver options) :
    path.directLength = source.distance receiver := by
  rcases cases_of_mem_paths isPath with rfl | top | around | reflected
  · rfl
  · exact (topPath_eq_some top).2.2.1
  · exact (le_length_of_mem_aroundPaths around).2.1
  · exact (le_length_of_mem_reflectedPaths reflected).2.1

theorem length_nonneg_of_mem_paths {options : PathOptions ℝ} {path : Path ℝ}
    (isPath : path ∈ s.paths source receiver options) : 0 ≤ path.length := by
  have direct := source.distance_nonneg receiver
  rcases cases_of_mem_paths isPath with rfl | top | around | reflected
  · exact direct
  · rw [(topPath_eq_some top).2.1]
    exact Polyline.length_nonneg _
  · exact direct.trans (le_length_of_mem_aroundPaths around).1
  · exact direct.trans (le_length_of_mem_reflectedPaths reflected).1

/-- Walls on a path are walls of the scene that reflect. -/
theorem exists_wall_of_mem_absorptions {options : PathOptions ℝ} {path : Path ℝ}
    (isPath : path ∈ s.paths source receiver options) {a : ℝ} (absorbed : a ∈ path.absorptions) :
    ∃ wall ∈ s.walls, wall.absorption = a ∧ a < 1 := by
  rcases cases_of_mem_paths isPath with rfl | top | around | reflected
  · have none : (s.directPath source receiver options.sourceFactor).absorptions = [] :=
      absorption?_bentEvents source receiver []
    simp [none] at absorbed
  · simp [(topPath_eq_some top).2.2.2] at absorbed
  · simp [(le_length_of_mem_aroundPaths around).2.2] at absorbed
  · exact (le_length_of_mem_reflectedPaths reflected).2.2 a absorbed

/-- Every path is at least as long as the direct line, unless it leads over the top of
crests that do not all lie between the ends. -/
theorem le_length_of_mem_paths {options : PathOptions ℝ} {path : Path ℝ}
    (long : Scalar.eps ≤ source.planarDistance receiver)
    (isPath : path ∈ s.paths source receiver options)
    (between : path.kind = .top → (s.cut source receiver).CrestsBetween) :
    source.distance receiver ≤ path.length := by
  rcases cases_of_mem_paths isPath with rfl | top | around | reflected
  · exact le_rfl
  · obtain ⟨isTop, length, -⟩ := topPath_eq_some top
    obtain ⟨first, last⟩ := Cut.ends_tautWay (c := s.cut source receiver) long (between isTop)
    rw [length]
    exact Polyline.distance_le_length_of_ends first last
  · exact (le_length_of_mem_aroundPaths around).1
  · exact (le_length_of_mem_reflectedPaths reflected).1

end Scene

end RoadNoise
