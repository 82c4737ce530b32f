/-
# RoadNoise.Proofs.Beside -- detours to the left and to the right

The hull around both ends is a ring of corners that turns counter-clockwise.  Walked from
the source it is the source, the corners on the way on, the receiver, and the corners on
the way from there (`Hull.exists_ways_eq`).  Seen from the source the corners follow each
other counter-clockwise, so those before the receiver lie to the right of the line to it
and those after it to the left (`Hull.Ringed.mem_ahead_iff`).  That settles which side is
which, wherever in the ring the walk begins and whether or not there are corners on both
sides.

With both ends and all outlines in whole millimetres each detour leads around the last
obstacles on its side of the line (`Scene.detours_convex`).
-/
import RoadNoise.Proofs.Corners
import RoadNoise.Proofs.Graded
import RoadNoise.Proofs.Lookup
import RoadNoise.Proofs.Settled

set_option autoImplicit false

namespace RoadNoise

/-! ## Ways around a ring -/

namespace Hull

variable {β : Type}

/-- Up to a place that a tour meets once. -/
theorem takeWhile_place {front back : List (β × Nat)} {b : β} {j : Nat}
    (once : ((front ++ (b, j) :: back).map Prod.snd).Nodup) :
    ((front ++ (b, j) :: back).takeWhile fun e => e.2 != j) = front := by
  have before : ∀ e ∈ front, (e.2 != j) = true := by
    intro e member
    rw [List.map_append, List.nodup_append] at once
    have other := once.2.2 e.2 (List.mem_map_of_mem member) j (by simp)
    simpa using other
  rw [List.takeWhile_append_of_pos before, List.takeWhile_cons_of_neg (by simp), List.append_nil]

/-- A ring, from one place on, is the way to another one and the way from there. -/
theorem exists_ways_eq {ring : List β} {i j : Nat} (hi : i < ring.length) (hj : j < ring.length)
    (apart : i ≠ j) : ∃ ahead rest,
      ring.drop i ++ ring.take i = ring[i] :: ahead ++ ring[j] :: rest ∧
        ways ring i j = (ahead, rest.reverse) := by
  have first : ring.zipIdx.drop i = (ring[i], i) :: ring.zipIdx.drop (i + 1) := by
    rw [List.drop_eq_getElem_cons (by simpa using hi), List.getElem_zipIdx, zero_add]
  have around : ring.zipIdx.drop i ++ ring.zipIdx.take i
      = (ring[i], i) :: (ring.zipIdx.drop (i + 1) ++ ring.zipIdx.take i) := by
    rw [first, List.cons_append]
  have perm : (ring.zipIdx.drop i ++ ring.zipIdx.take i).Perm ring.zipIdx := by
    conv_rhs => rw [← List.take_append_drop i ring.zipIdx]
    exact List.perm_append_comm
  have member : (ring[j], j) ∈ ring.zipIdx.drop (i + 1) ++ ring.zipIdx.take i := by
    have listed : (ring[j], j) ∈ ring.zipIdx.drop i ++ ring.zipIdx.take i :=
      perm.mem_iff.2 (List.mem_zipIdx_iff_getElem?.2 (List.getElem?_eq_getElem hj))
    rw [around, List.mem_cons] at listed
    exact listed.resolve_left fun same => apart (Prod.mk.inj same).2.symm
  obtain ⟨front, back, split⟩ := List.append_of_mem member
  have once : ((front ++ (ring[j], j) :: back).map Prod.snd).Nodup := by
    have all := (perm.map Prod.snd).nodup_iff.2 (by
      rw [List.zipIdx_map_snd]
      exact List.nodup_range')
    rw [around, split, List.map_cons] at all
    exact (List.nodup_cons.1 all).2
  have once' : ((back.reverse ++ (ring[j], j) :: front.reverse).map Prod.snd).Nodup := by
    simpa using List.nodup_reverse.2 once
  refine ⟨front.map Prod.fst, back.map Prod.fst, ?_, ?_⟩
  · have firsts := congrArg (List.map Prod.fst) around
    rw [split] at firsts
    simpa [List.map_drop, List.map_take] using firsts
  · have turned : (front ++ (ring[j], j) :: back).reverse
        = back.reverse ++ (ring[j], j) :: front.reverse := by simp
    simp only [ways, split, takeWhile_place once, turned, takeWhile_place once', List.map_reverse]

/-! ## Rings from any corner on -/

/-- A ring of points at the corners of their hull, from any one of them on. -/
structure Ringed (points ring : List (Point ℝ)) : Prop where
  mem : ∀ p ∈ ring, p ∈ points
  corners : ∀ v, v ∈ ring.map Point.planar ↔ v ∈ (hull points).extremePoints ℝ
  turning : Turning (ring.map Point.planar)
  left : ∀ e ∈ Sequence.cyclic (ring.map Point.planar), ∀ p ∈ points, 0 ≤ turn e.1 e.2 p.planar
  within : ∀ p ∈ points, p.planar ∈ convexHull ℝ {v | v ∈ ring.map Point.planar}

namespace Ringed

variable {points front back ahead rest : List (Point ℝ)} {a b p : Point ℝ} {q : ℝ × ℝ}

theorem of_convex (whole : ∀ p ∈ points, WholeMillimetres p.planar) :
    Ringed points (convex points) where
  mem _ := mem_of_mem_convex
  corners := (encloses_convex whole).corners
  turning := (encloses_convex whole).turning
  left e edge p member := (encloses_convex whole).left e edge _ ⟨p, member, rfl⟩
  within p member := (encloses_convex whole).within ⟨p, member, rfl⟩

/-- Points at the same places make the same ring. -/
theorem of_map_eq (ringed : Ringed points front) (mem : ∀ p ∈ back, p ∈ points)
    (same : back.map Point.planar = front.map Point.planar) : Ringed points back := by
  obtain ⟨-, corners, turning, left, within⟩ := ringed
  rw [← same] at corners turning left within
  exact ⟨mem, corners, turning, left, within⟩

theorem rotate (ringed : Ringed points (front ++ back)) : Ringed points (back ++ front) where
  mem p member := ringed.mem p (List.perm_append_comm.mem_iff.1 member)
  corners v := by
    rw [← ringed.corners]
    exact (List.perm_append_comm.map Point.planar).mem_iff
  turning := by
    have turning := ringed.turning
    rw [List.map_append] at turning ⊢
    exact turning.rotate
  left e edge := ringed.left e (by
    rw [List.map_append] at edge ⊢
    exact Sequence.mem_cyclic_append_comm.1 edge)
  within p member := by
    have same : {v | v ∈ (back ++ front).map Point.planar}
        = {v | v ∈ (front ++ back).map Point.planar} :=
      Set.ext fun v => (List.perm_append_comm.map Point.planar).mem_iff
    rw [same]
    exact ringed.within p member

variable (ringed : Ringed points (a :: ahead ++ b :: rest))
include ringed

/-- Between two of its points a ring keeps to the right of the line from the one to the other. -/
theorem mem_ahead_iff : q ∈ ahead.map Point.planar ↔
    q ∈ (hull points).extremePoints ℝ ∧ turn a.planar b.planar q < 0 := by
  have turning := ringed.turning
  have corners := ringed.corners q
  simp only [List.map_append, List.map_cons, List.cons_append] at turning corners
  obtain ⟨-, onwards, across⟩ := List.pairwise_append.1 turning.pairwise_turn
  have right : ∀ v ∈ ahead.map Point.planar, turn a.planar b.planar v < 0 := by
    intro v member
    rw [turn_swap]
    linarith [across v member b.planar (by simp)]
  rw [← corners]
  refine ⟨fun member => ⟨by simp [member], right q member⟩, fun ⟨member, isRight⟩ => ?_⟩
  simp only [List.mem_cons, List.mem_append] at member
  rcases member with rfl | isAhead | rfl | isRest
  · simp at isRight
  · exact isAhead
  · simp at isRight
  · exact absurd ((List.pairwise_cons.1 onwards).1 q isRest) isRight.not_gt

theorem triplewise_ahead : ((a :: ahead ++ [b]).map Point.planar).Triplewise
    fun u v w => 0 < turn u v w := by
  have turning := ringed.turning
  rw [show a :: ahead ++ b :: rest = (a :: ahead ++ [b]) ++ rest by simp, List.map_append]
    at turning
  exact turning.triplewise_turn

theorem left_ahead (member : p ∈ points) : ∀ leg ∈ Sequence.adjacent (a :: ahead ++ [b]),
    0 ≤ turn leg.1.planar leg.2.planar p.planar := by
  intro leg isLeg
  refine ringed.left (leg.1.planar, leg.2.planar) ?_ p member
  rw [List.map_append, List.map_cons, List.map_cons, Sequence.cyclic_cons_append_cons,
    List.mem_append]
  left
  rw [show a.planar :: ahead.map Point.planar ++ [b.planar]
    = (a :: ahead ++ [b]).map Point.planar by simp, Sequence.adjacent_map]
  exact List.mem_map_of_mem isLeg

end Ringed

end Hull

/-! ## Graded ways on the map -/

namespace Polyline

theorem map_planar_graded (way : List (Point ℝ)) :
    (graded way).map Point.planar = way.map Point.planar := by
  have above := above_graded way
  revert above
  generalize graded way = way'
  intro above
  induction above with
  | nil => rfl
  | cons first _ ih =>
      rw [List.map_cons, List.map_cons, ih, Point.planar, Point.planar, first.1, first.2]

theorem map_planar_inner_graded (source receiver : Point ℝ) (points : List (Point ℝ)) :
    (inner (graded (source :: points ++ [receiver]))).map Point.planar
      = points.map Point.planar := by
  have places := map_planar_graded (source :: points ++ [receiver])
  rw [graded_eq] at places
  simpa using places

end Polyline

open Hull

namespace Scene

section

variable {α : Type} [Scalar α]

/-- The ways around both sides of the obstacles, but for those without a corner. -/
def detours (s : Scene α) (source receiver : Point α) (obstacles : List Nat) :
    Option (List (Point α)) × Option (List (Point α)) :=
  let sides := s.settledSides source receiver obstacles
  ((sides.map Sides.left).filter fun way => 2 < way.length,
    (sides.map Sides.right).filter fun way => 2 < way.length)

/-- The paths around obstacles are those along the detours. -/
theorem aroundPaths_eq (s : Scene α) (source receiver : Point α) (obstacles : List Nat)
    (directLength : α) (sourceFactor : Option α) :
    s.aroundPaths source receiver obstacles directLength sourceFactor
      = ((s.detours source receiver obstacles).1.map fun way =>
          s.aroundPath .left way source directLength sourceFactor).toList
        ++ ((s.detours source receiver obstacles).2.map fun way =>
          s.aroundPath .right way source directLength sourceFactor).toList := by
  unfold aroundPaths detours
  cases s.settledSides source receiver obstacles with
  | none => rfl
  | some sides =>
      by_cases left : 2 < sides.left.length <;> by_cases right : 2 < sides.right.length <;>
        simp [left, right, Option.filter_some]

omit [Scalar α] in
theorem mem_outlineCorners {s : Scene α} {included : List Nat} {p : Point α} :
    p ∈ s.outlineCorners included ↔ ∃ b ∈ included, ∃ building, s.buildings[b]? = some building ∧
      p ∈ building.outline.outer := by
  simp only [outlineCorners, List.mem_flatMap, Sequence.mem_ascending]
  refine exists_congr fun b => and_congr_right fun _ => ?_
  cases s.buildings[b]? <;> simp

end

variable {s : Scene ℝ} {source receiver : Point ℝ} {included : List Nat}

/-- The corners of the hull around both ends and the outlines of some buildings. -/
def cornersAround (s : Scene ℝ) (source receiver : Point ℝ) (included : List Nat) : Set (ℝ × ℝ) :=
  (hull (source :: receiver :: s.outlineCorners included)).extremePoints ℝ

/-- Neither end lies within the hull of the other one and the outlines. -/
def EndsOut (s : Scene ℝ) (source receiver : Point ℝ) (included : List Nat) : Prop :=
  source.planar ∈ s.cornersAround source receiver included ∧
    receiver.planar ∈ s.cornersAround source receiver included

/-- A way around some buildings on one side of the line from `source` to `receiver`, on the
left if `side` is positive and on the right if it is negative. -/
structure Rounds (s : Scene ℝ) (source receiver : Point ℝ) (included : List Nat) (side : ℝ)
    (way : List (Point ℝ)) : Prop where
  ends : way = source :: Polyline.inner way ++ [receiver]
  /-- In between it leads over the corners strictly to that side, and over no others. -/
  corners : ∀ q, q ∈ (Polyline.inner way).map Point.planar ↔
    q ∈ s.cornersAround source receiver included ∧ 0 < side * turn source.planar receiver.planar q
  outlines : ∀ v ∈ Polyline.inner way, ∃ b ∈ included, ∃ building,
    s.buildings[b]? = some building ∧ ∃ p ∈ building.outline.outer, p.planar = v.planar
  /-- Any three of its places turn back towards the line. -/
  bends : (way.map Point.planar).Triplewise fun a b c => side * turn a b c < 0
  /-- No corner of an outline lies beyond one of its legs. -/
  clear : ∀ leg ∈ Sequence.adjacent way, ∀ p ∈ s.outlineCorners included,
    side * turn leg.1.planar leg.2.planar p.planar ≤ 0
  /-- Each place has risen by its share of the way to it. -/
  rises : ∀ front v back, way = front ++ v :: back →
    v.z = source.z + Polyline.planarLength (front ++ [v]) / Polyline.planarLength way
      * (receiver.z - source.z)

/-- What one side of the line gives. -/
structure Beside (s : Scene ℝ) (source receiver : Point ℝ) (included : List Nat) (side : ℝ)
    (detour : Option (List (Point ℝ))) : Prop where
  rounds : ∀ way ∈ detour, s.Rounds source receiver included side way
  none_iff : detour = none ↔ ¬s.EndsOut source receiver included ∨
    ∀ q ∈ s.cornersAround source receiver included,
      side * turn source.planar receiver.planar q ≤ 0

/-- Over a corner on one side leads the way there, unless an end is no corner. -/
theorem Beside.exists_way {side : ℝ} {detour : Option (List (Point ℝ))} {q : ℝ × ℝ}
    (beside : s.Beside source receiver included side detour)
    (out : s.EndsOut source receiver included)
    (corner : q ∈ s.cornersAround source receiver included)
    (aside : 0 < side * turn source.planar receiver.planar q) :
    ∃ way, detour = some way ∧ q ∈ way.map Point.planar := by
  cases detour with
  | none =>
      rcases beside.none_iff.1 rfl with inside | none
      · exact absurd out inside
      · exact absurd aside (none q corner).not_gt
  | some way =>
      have rounds := beside.rounds way rfl
      refine ⟨way, rfl, ?_⟩
      rw [rounds.ends]
      simp [(rounds.corners q).2 ⟨corner, aside⟩]

/-! ## The ring around both ends -/

/-- The outlines of the buildings and both ends are drawn in whole millimetres. -/
structure WholeMillimetres (s : Scene ℝ) (source receiver : Point ℝ) : Prop where
  atSource : Hull.WholeMillimetres source.planar
  atReceiver : Hull.WholeMillimetres receiver.planar
  outlines : ∀ building ∈ s.buildings, ∀ p ∈ building.outline.outer,
    Hull.WholeMillimetres p.planar

theorem WholeMillimetres.points (whole : s.WholeMillimetres source receiver) (included : List Nat) :
    ∀ p ∈ source :: receiver :: s.outlineCorners included, Hull.WholeMillimetres p.planar := by
  intro p member
  simp only [List.mem_cons] at member
  rcases member with rfl | rfl | corner
  · exact whole.atSource
  · exact whole.atReceiver
  · obtain ⟨b, -, building, entry, outer⟩ := mem_outlineCorners.1 corner
    exact whole.outlines building (Array.mem_of_getElem? entry) p outer

section Places

variable (whole : s.WholeMillimetres source receiver) {p : Point ℝ}
  (atPoint : Hull.WholeMillimetres p.planar)
include whole atPoint

theorem samePlanar_hullAround_iff {q : Point ℝ}
    (listed : q ∈ s.hullAround source receiver included) :
    q.samePlanar p = true ↔ q.planar = p.planar :=
  samePlanar_iff (whole.points included q (mem_of_mem_convex listed)) atPoint

/-- An end has no place in the ring unless it is a corner. -/
theorem findIdx?_eq_none_iff : (s.hullAround source receiver included).findIdx? (·.samePlanar p)
    = none ↔ p.planar ∉ s.cornersAround source receiver included := by
  rw [List.findIdx?_eq_none_iff, cornersAround, ← (Ringed.of_convex (whole.points _)).corners,
    List.mem_map, not_exists]
  refine forall_congr' fun q => ?_
  rw [not_and]
  refine forall_congr' fun listed => ?_
  rw [← Bool.not_eq_true, samePlanar_hullAround_iff whole atPoint listed]

theorem exists_findIdx? (corner : p.planar ∈ s.cornersAround source receiver included) :
    ∃ i, (s.hullAround source receiver included).findIdx? (·.samePlanar p) = some i ∧
      ∃ inside : i < (s.hullAround source receiver included).length,
        (s.hullAround source receiver included)[i].planar = p.planar := by
  obtain ⟨i, isPlace⟩ := Option.ne_none_iff_exists'.1
    (mt (findIdx?_eq_none_iff whole atPoint).1 (not_not.2 corner))
  obtain ⟨inside, same, -⟩ := List.findIdx?_eq_some_iff_getElem.1 isPlace
  exact ⟨i, isPlace, inside,
    (samePlanar_hullAround_iff whole atPoint (List.getElem_mem inside)).1 same⟩

end Places

theorem sidesAround_eq_none (whole : s.WholeMillimetres source receiver)
    (inside : ¬s.EndsOut source receiver included) :
    s.sidesAround source receiver included = none := by
  rw [EndsOut, not_and_or, ← findIdx?_eq_none_iff whole whole.atSource,
    ← findIdx?_eq_none_iff whole whole.atReceiver] at inside
  unfold sidesAround
  dsimp only
  split
  · rename_i i j isSource isReceiver
    rw [hullAround, isSource, isReceiver] at inside
    simp at inside
  · rfl

theorem exists_sidesAround (whole : s.WholeMillimetres source receiver)
    (apart : source.planar ≠ receiver.planar) (out : s.EndsOut source receiver included) :
    ∃ ahead rest, Ringed (source :: receiver :: s.outlineCorners included)
        (source :: ahead ++ receiver :: rest) ∧
      s.sidesAround source receiver included
        = some ⟨Polyline.graded (source :: rest.reverse ++ [receiver]),
            Polyline.graded (source :: ahead ++ [receiver])⟩ := by
  obtain ⟨i, isSource, hi, atSource⟩ := exists_findIdx? whole whole.atSource out.1
  obtain ⟨j, isReceiver, hj, atReceiver⟩ := exists_findIdx? whole whole.atReceiver out.2
  obtain ⟨ahead, rest, around, ways⟩ := exists_ways_eq hi hj (by
    rintro rfl
    exact apart (atSource.symm.trans atReceiver))
  have ringed : Ringed (source :: receiver :: s.outlineCorners included)
      ((s.hullAround source receiver included).drop i
        ++ (s.hullAround source receiver included).take i) := by
    refine Ringed.rotate ?_
    rw [List.take_append_drop]
    exact Ringed.of_convex (whole.points included)
  rw [around] at ringed
  refine ⟨ahead, rest, ringed.of_map_eq (fun p member => ?_) (by simp [atSource, atReceiver]), ?_⟩
  · have listed := ringed.mem p
    simp only [List.cons_append, List.mem_cons, List.mem_append] at member listed ⊢
    tauto
  · rw [hullAround] at isSource isReceiver ways
    simp only [sidesAround, isSource, isReceiver, ways]

/-! ## Both sides of it -/

theorem rounds_graded {side : ℝ} {points : List (Point ℝ)}
    (apart : source.planar ≠ receiver.planar)
    (corners : ∀ q, q ∈ points.map Point.planar ↔
      q ∈ s.cornersAround source receiver included ∧
        0 < side * turn source.planar receiver.planar q)
    (mem : ∀ p ∈ points, p ∈ source :: receiver :: s.outlineCorners included)
    (bends : ((source :: points ++ [receiver]).map Point.planar).Triplewise
      fun a b c => side * turn a b c < 0)
    (clear : ∀ leg ∈ Sequence.adjacent (source :: points ++ [receiver]),
      ∀ p ∈ s.outlineCorners included, side * turn leg.1.planar leg.2.planar p.planar ≤ 0) :
    s.Rounds source receiver included side (Polyline.graded (source :: points ++ [receiver])) where
  ends := Polyline.graded_eq source receiver points
  corners := by
    rw [Polyline.map_planar_inner_graded]
    exact corners
  outlines v member := by
    have listed : v.planar ∈ points.map Point.planar := by
      rw [← Polyline.map_planar_inner_graded source receiver]
      exact List.mem_map_of_mem member
    obtain ⟨p, isPoint, same⟩ := List.mem_map.1 listed
    have strict := ((corners v.planar).1 listed).2
    rw [← same] at strict
    have outer := mem p isPoint
    simp only [List.mem_cons] at outer
    rcases outer with rfl | rfl | outer
    · simp at strict
    · simp at strict
    · obtain ⟨b, isIncluded, building, entry, outer⟩ := mem_outlineCorners.1 outer
      exact ⟨b, isIncluded, building, entry, p, outer, same⟩
  bends := by rwa [Polyline.map_planar_graded]
  clear leg isLeg p member := by
    have listed : (leg.1.planar, leg.2.planar)
        ∈ Sequence.adjacent ((source :: points ++ [receiver]).map Point.planar) := by
      rw [← Polyline.map_planar_graded, Sequence.adjacent_map]
      exact List.mem_map_of_mem isLeg
    rw [Sequence.adjacent_map] at listed
    obtain ⟨leg', isLeg', same⟩ := List.mem_map.1 listed
    obtain ⟨first, second⟩ := Prod.mk.inj same
    rw [← first, ← second]
    exact clear leg' isLeg' p member
  rises front v back split := by
    rw [Polyline.planarLength_congr (Polyline.above_graded (source :: points ++ [receiver]))]
    exact Polyline.elevation_of_graded ((Point.planarDistance_pos apart).trans_le
      (Polyline.planarDistance_le_planarLength source receiver points)) split

section Both

variable {ahead rest : List (Point ℝ)}

theorem rounds_right (apart : source.planar ≠ receiver.planar)
    (ringed : Ringed (source :: receiver :: s.outlineCorners included)
      (source :: ahead ++ receiver :: rest)) :
    s.Rounds source receiver included (-1) (Polyline.graded (source :: ahead ++ [receiver])) := by
  refine rounds_graded apart (fun q => ?_) (fun p member => ?_) ?_ fun leg isLeg p member => ?_
  · rw [ringed.mem_ahead_iff, neg_one_mul, neg_pos]
    rfl
  · exact ringed.mem p (by simp [member])
  · simpa only [neg_one_mul, neg_neg_iff_pos] using ringed.triplewise_ahead
  · rw [neg_one_mul, neg_nonpos]
    exact ringed.left_ahead (by simp [member]) leg isLeg

theorem rounds_left (apart : source.planar ≠ receiver.planar)
    (ringed : Ringed (source :: receiver :: s.outlineCorners included)
      (source :: ahead ++ receiver :: rest)) :
    s.Rounds source receiver included 1
      (Polyline.graded (source :: rest.reverse ++ [receiver])) := by
  have ringed := ringed.rotate
  have backwards : source :: rest.reverse ++ [receiver]
      = (receiver :: rest ++ [source]).reverse := by simp
  refine rounds_graded apart (fun q => ?_) (fun p member => ?_) ?_ fun leg isLeg p member => ?_
  · rw [List.map_reverse, List.mem_reverse, ringed.mem_ahead_iff, one_mul, turn_flip,
      neg_lt_zero]
    rfl
  · exact ringed.mem p (by simp [List.mem_reverse.1 member])
  · rw [backwards, List.map_reverse, List.triplewise_reverse]
    refine ringed.triplewise_ahead.imp fun {u v w} left => ?_
    rw [one_mul, turn_flip, turn_rotate]
    exact neg_neg_of_pos left
  · rw [backwards, Sequence.mem_adjacent_reverse] at isLeg
    rw [one_mul, turn_flip]
    exact neg_nonpos.2 (ringed.left_ahead (by simp [member]) _ isLeg)

/-- A way that leads over no corner does not count. -/
theorem filter_graded {points : List (Point ℝ)} :
    (some (Polyline.graded (source :: points ++ [receiver]))).filter (fun way => 2 < way.length)
      = if points = [] then none else some (Polyline.graded (source :: points ++ [receiver])) := by
  cases points with
  | nil => simp [Option.filter_some, Polyline.length_graded]
  | cons p points => simp [Option.filter_some, Polyline.length_graded]

theorem exists_mem_filter_graded {points : List (Point ℝ)} {v : ℝ × ℝ}
    (listed : v ∈ points.map Point.planar) :
    ∃ way ∈ (some (Polyline.graded (source :: points ++ [receiver]))).filter
      (fun way => 2 < way.length), v ∈ way.map Point.planar := by
  have corners : points ≠ [] := by
    rintro rfl
    simp at listed
  refine ⟨_, by rw [filter_graded, if_neg corners]; rfl, ?_⟩
  rw [Polyline.map_planar_graded, List.map_append, List.map_cons]
  simp [List.mem_map.1 listed]

theorem beside_of_rounds {side : ℝ} {points : List (Point ℝ)}
    (out : s.EndsOut source receiver included)
    (rounds : s.Rounds source receiver included side
      (Polyline.graded (source :: points ++ [receiver]))) :
    s.Beside source receiver included side
      ((some (Polyline.graded (source :: points ++ [receiver]))).filter fun way =>
        2 < way.length) := by
  rw [filter_graded]
  constructor
  · intro way kept
    split_ifs at kept
    · simp at kept
    · obtain rfl := Option.some.inj kept
      exact rounds
  · have corners := rounds.corners
    rw [Polyline.map_planar_inner_graded] at corners
    have none : points = [] ↔ ∀ q ∈ s.cornersAround source receiver included,
        side * turn source.planar receiver.planar q ≤ 0 := by
      rw [← List.map_eq_nil_iff (f := Point.planar), List.eq_nil_iff_forall_not_mem]
      refine forall_congr' fun q => ?_
      rw [corners, not_and, not_lt]
    rw [or_iff_right (not_not.2 out), ← none]
    simp

end Both

/-- Each detour leads from the source over the corners on its side of the line, which are
corners of included outlines, to the receiver, in a convex chain that rises evenly.  A side
has none exactly if no corner is on that side or an end is no corner, and the included
outlines lie within the two sides. -/
theorem detours_convex (whole : s.WholeMillimetres source receiver)
    (apart : source.planar ≠ receiver.planar) (obstacles : List Nat) :
    ∃ last, s.Settles source receiver obstacles last ∧
      s.Beside source receiver last 1 (s.detours source receiver obstacles).1 ∧
      s.Beside source receiver last (-1) (s.detours source receiver obstacles).2 ∧
      (s.EndsOut source receiver last → ∀ p ∈ s.outlineCorners last,
        p.planar ∈ convexHull ℝ ({source.planar, receiver.planar} ∪ {v | ∃ way,
          (way ∈ (s.detours source receiver obstacles).1 ∨
            way ∈ (s.detours source receiver obstacles).2) ∧ v ∈ way.map Point.planar})) := by
  obtain ⟨last, settles, same⟩ := s.exists_settles source receiver obstacles
  refine ⟨last, settles, ?_⟩
  by_cases out : s.EndsOut source receiver last
  · obtain ⟨ahead, rest, ringed, laid⟩ := exists_sidesAround whole apart out
    rw [laid] at same
    simp only [detours, same, Option.map_some]
    refine ⟨beside_of_rounds out (rounds_left apart ringed),
      beside_of_rounds out (rounds_right apart ringed), fun _ p member => ?_⟩
    refine convexHull_mono (fun v corner => ?_) (ringed.within p (by simp [member]))
    rw [Set.mem_ofPred_eq, List.map_append, List.mem_append, List.map_cons, List.map_cons,
      List.mem_cons, List.mem_cons] at corner
    rcases corner with (rfl | onRight) | rfl | onLeft
    · simp
    · obtain ⟨way, isWay, listed⟩ := exists_mem_filter_graded onRight
      exact .inr ⟨way, .inr isWay, listed⟩
    · simp
    · rw [← List.mem_reverse, ← List.map_reverse] at onLeft
      obtain ⟨way, isWay, listed⟩ := exists_mem_filter_graded onLeft
      exact .inr ⟨way, .inl isWay, listed⟩
  · rw [sidesAround_eq_none whole out] at same
    simp only [detours, same, Option.map_none, Option.filter_none]
    exact ⟨⟨by simp, by simp [out]⟩, ⟨by simp, by simp [out]⟩, fun absurd => (out absurd).elim⟩

end Scene

/-! ## Around both ends of a block -/

/-- A place with all points to the left of both lines through it, that to it and that from
it, is a corner of their hull. -/
theorem Hull.mem_extremePoints_of_turn {points : List (Point ℝ)} {p : Point ℝ} {a b : ℝ × ℝ}
    (member : p ∈ points) (turns : 0 < turn a p.planar b)
    (left : ∀ q ∈ points, 0 ≤ turn a p.planar q.planar ∧ 0 ≤ turn p.planar b q.planar) :
    p.planar ∈ (hull points).extremePoints ℝ := by
  refine mem_extremePoints_of_subset (corner_of_turn turns) (planar_mem_hull member) ?_
  refine convexHull_min ?_ ((convex_turn a p.planar).inter (convex_turn p.planar b))
  rintro _ ⟨q, listed, rfl⟩
  exact left q listed

theorem mem_blockRing {p : Point ℝ} (member : p ∈ blockRing) :
    p = ⟨-10, 10, 0⟩ ∨ p = ⟨10, 10, 0⟩ ∨ p = ⟨10, 20, 0⟩ ∨ p = ⟨-10, 20, 0⟩ := by
  norm_num [blockRing] at member
  exact member

theorem block_wholeMillimetres :
    blockDraft.finish.WholeMillimetres ⟨-30, 15, 1⟩ ⟨30, 15, 4⟩ where
  atSource := by exact_mod_cast wholeMillimetres_metres (-30) 15
  atReceiver := by exact_mod_cast wholeMillimetres_metres 30 15
  outlines building isBuilding p outer := by
    obtain rfl : building = block := by simpa [blockDraft, Draft.finish] using isBuilding
    rcases mem_blockRing outer with rfl | rfl | rfl | rfl
    · exact_mod_cast wholeMillimetres_metres (-10) 10
    · exact_mod_cast wholeMillimetres_metres 10 10
    · exact_mod_cast wholeMillimetres_metres 10 20
    · exact_mod_cast wholeMillimetres_metres (-10) 20

/-- The hull around the ends has a corner wherever the ends and the ring of the block
have one. -/
theorem block_cornersAround {included : List Nat} (zero : 0 ∈ included) :
    blockDraft.finish.cornersAround ⟨-30, 15, 1⟩ ⟨30, 15, 4⟩ included
      = (hull (⟨-30, 15, 1⟩ :: ⟨30, 15, 4⟩ :: blockRing)).extremePoints ℝ := by
  have same : ∀ p, p ∈ blockDraft.finish.outlineCorners included ↔ p ∈ blockRing := by
    intro p
    rw [Scene.mem_outlineCorners]
    constructor
    · rintro ⟨b, -, building, entry, outer⟩
      obtain rfl : building = block := by
        simpa [blockDraft, Draft.finish] using Array.mem_of_getElem? entry
      exact outer
    · exact fun outer => ⟨0, zero, block, rfl, outer⟩
  simp only [Scene.cornersAround, hull, List.mem_cons, same]

theorem block_corners : ({(-30, 15), (30, 15), (10, 20), (10, 10)} : Set (ℝ × ℝ))
    ⊆ (hull (⟨-30, 15, 1⟩ :: ⟨30, 15, 4⟩ :: blockRing)).extremePoints ℝ := by
  have corner : ∀ (p : Point ℝ) (a b : ℝ × ℝ), p ∈ ⟨-30, 15, 1⟩ :: ⟨30, 15, 4⟩ :: blockRing →
      0 < turn a p.planar b → (∀ q ∈ ⟨-30, 15, 1⟩ :: ⟨30, 15, 4⟩ :: blockRing,
        0 ≤ turn a p.planar q.planar ∧ 0 ≤ turn p.planar b q.planar) →
      p.planar ∈ (hull (⟨-30, 15, 1⟩ :: ⟨30, 15, 4⟩ :: blockRing)).extremePoints ℝ :=
    fun p a b => mem_extremePoints_of_turn
  rintro v (rfl | rfl | rfl | rfl)
  · refine corner ⟨-30, 15, 1⟩ (-10, 20) (-10, 10) ?_ ?_ ?_ <;>
      norm_num [blockRing, turn_eq, Point.planar]
  · refine corner ⟨30, 15, 4⟩ (10, 10) (10, 20) ?_ ?_ ?_ <;>
      norm_num [blockRing, turn_eq, Point.planar]
  · refine corner ⟨10, 20, 0⟩ (30, 15) (-10, 20) ?_ ?_ ?_ <;>
      norm_num [blockRing, turn_eq, Point.planar]
  · refine corner ⟨10, 10, 0⟩ (-10, 10) (30, 15) ?_ ?_ ?_ <;>
      norm_num [blockRing, turn_eq, Point.planar]

/-- The block is passed on both sides. -/
theorem block_detours : blockDraft.finish.WholeMillimetres ⟨-30, 15, 1⟩ ⟨30, 15, 4⟩ ∧
    (⟨-30, 15, 1⟩ : Point ℝ).planar ≠ (⟨30, 15, 4⟩ : Point ℝ).planar ∧
    ∃ left right, blockDraft.finish.detours ⟨-30, 15, 1⟩ ⟨30, 15, 4⟩ [0]
        = (some left, some right) ∧
      (10, 20) ∈ left.map Point.planar ∧ (10, 10) ∈ right.map Point.planar := by
  have apart : (⟨-30, 15, 1⟩ : Point ℝ).planar ≠ (⟨30, 15, 4⟩ : Point ℝ).planar := by
    intro same
    have east := congrArg Prod.fst same
    norm_num [Point.planar] at east
  refine ⟨block_wholeMillimetres, apart, ?_⟩
  obtain ⟨last, settles, left, right, -⟩ :=
    Scene.detours_convex block_wholeMillimetres apart [0]
  have corners := block_corners
  rw [← block_cornersAround (settles.subset (by simp))] at corners
  have out : blockDraft.finish.EndsOut ⟨-30, 15, 1⟩ ⟨30, 15, 4⟩ last :=
    ⟨corners (.inl rfl), corners (.inr (.inl rfl))⟩
  obtain ⟨way, isLeft, onLeft⟩ := left.exists_way out (corners (.inr (.inr (.inl rfl))))
    (by norm_num [Point.planar, turn_eq])
  obtain ⟨way', isRight, onRight⟩ := right.exists_way out (corners (.inr (.inr (.inr rfl))))
    (by norm_num [Point.planar, turn_eq])
  exact ⟨way, way', Prod.ext isLeft isRight, onLeft, onRight⟩

/-! ## A side that runs into the block -/

/-- A sliver across the way to the northeast, with its tip beyond the block. -/
noncomputable def sliverRing : List (Point ℝ) :=
  [⟨0, 30.0, 0⟩, ⟨22.0, 10.0, 0⟩, ⟨24.0, 12.0, 0⟩]

theorem sliverRing_eq : sliverRing = [⟨0, 30, 0⟩, ⟨22, 10, 0⟩, ⟨24, 12, 0⟩] := by
  norm_num [sliverRing]

noncomputable def sliver : Building ℝ :=
  ⟨⟨sliverRing, [], Box.around ⟨0, 30.0, 0⟩ sliverRing.tail⟩, .absolute 10.0, none⟩

noncomputable def pairDraft : Draft ℝ := { Draft.empty with buildings := #[sliver, block] }

theorem sliver_drawn : sliver.outline.Drawn := by
  refine Polygon.drawn_of_pairwise (by simp) ?_ ?_
  · simp [Point.samePlanar, Scalar.eps_eq]
    norm_num [abs_le]
  · simp [Ring.area, Sequence.cyclic, Scalar.eps_eq]
    norm_num

theorem pairDraft_made : pairDraft.Made :=
  .edit (e := .building block) (.edit (e := .building sliver) .empty sliver_drawn rfl)
    block_drawn rfl

theorem pairDraft_holesInBox : pairDraft.HolesInBox := by
  constructor
  · simp [pairDraft, sliver, blockOutline, Polygon.HolesInBox]
  · simp [pairDraft, Draft.empty]

theorem pair_wholeMillimetres :
    pairDraft.finish.WholeMillimetres ⟨0, 0, 1⟩ ⟨40, 30, 1⟩ where
  atSource := by exact_mod_cast wholeMillimetres_metres 0 0
  atReceiver := by exact_mod_cast wholeMillimetres_metres 40 30
  outlines building isBuilding p outer := by
    obtain rfl | rfl : building = sliver ∨ building = block := by
      simpa [pairDraft, Draft.finish] using isBuilding
    · simp only [sliver, sliverRing_eq, List.mem_cons, List.not_mem_nil, or_false] at outer
      rcases outer with rfl | rfl | rfl
      · exact_mod_cast wholeMillimetres_metres 0 30
      · exact_mod_cast wholeMillimetres_metres 22 10
      · exact_mod_cast wholeMillimetres_metres 24 12
    · rcases mem_blockRing outer with rfl | rfl | rfl | rfl
      · exact_mod_cast wholeMillimetres_metres (-10) 10
      · exact_mod_cast wholeMillimetres_metres 10 10
      · exact_mod_cast wholeMillimetres_metres 10 20
      · exact_mod_cast wholeMillimetres_metres (-10) 20

theorem pair_cornersAround : pairDraft.finish.cornersAround ⟨0, 0, 1⟩ ⟨40, 30, 1⟩ [0]
    = (hull (⟨0, 0, 1⟩ :: ⟨40, 30, 1⟩ :: sliverRing)).extremePoints ℝ := by
  have same : ∀ p, p ∈ pairDraft.finish.outlineCorners [0] ↔ p ∈ sliverRing := by
    intro p
    rw [Scene.mem_outlineCorners]
    constructor
    · rintro ⟨b, isFirst, building, entry, outer⟩
      obtain rfl := List.mem_singleton.1 isFirst
      obtain rfl : sliver = building := Option.some.inj entry
      exact outer
    · exact fun outer => ⟨0, by simp, sliver, rfl, outer⟩
  simp only [Scene.cornersAround, hull, List.mem_cons, same]

theorem sliver_corners : ({(0, 0), (40, 30), (0, 30)} : Set (ℝ × ℝ))
    ⊆ (hull (⟨0, 0, 1⟩ :: ⟨40, 30, 1⟩ :: sliverRing)).extremePoints ℝ := by
  have corner : ∀ (p : Point ℝ) (a b : ℝ × ℝ), p ∈ ⟨0, 0, 1⟩ :: ⟨40, 30, 1⟩ :: sliverRing →
      0 < turn a p.planar b → (∀ q ∈ ⟨0, 0, 1⟩ :: ⟨40, 30, 1⟩ :: sliverRing,
        0 ≤ turn a p.planar q.planar ∧ 0 ≤ turn p.planar b q.planar) →
      p.planar ∈ (hull (⟨0, 0, 1⟩ :: ⟨40, 30, 1⟩ :: sliverRing)).extremePoints ℝ :=
    fun p a b => mem_extremePoints_of_turn
  rintro v (rfl | rfl | rfl)
  · refine corner ⟨0, 0, 1⟩ (0, 30) (22, 10) ?_ ?_ ?_ <;>
      norm_num [sliverRing_eq, turn_eq, Point.planar]
  · refine corner ⟨40, 30, 1⟩ (24, 12) (0, 30) ?_ ?_ ?_ <;>
      norm_num [sliverRing_eq, turn_eq, Point.planar]
  · refine corner ⟨0, 30, 0⟩ (40, 30) (0, 0) ?_ ?_ ?_ <;>
      norm_num [sliverRing_eq, turn_eq, Point.planar]

/-- Around the sliver the left side leads over its tip. -/
theorem sliver_left {way : List (Point ℝ)}
    (rounds : pairDraft.finish.Rounds ⟨0, 0, 1⟩ ⟨40, 30, 1⟩ [0] 1 way) :
    way = [⟨0, 0, 1⟩, ⟨0, 30, 1⟩, ⟨40, 30, 1⟩] := by
  have corners := rounds.corners
  rw [pair_cornersAround] at corners
  -- the tip is the only corner to the left of the direct line
  have tip : ∀ v ∈ Polyline.inner way, v.planar = (0, 30) := by
    intro v member
    obtain ⟨corner, aside⟩ := (corners v.planar).1 (List.mem_map_of_mem member)
    obtain ⟨p, listed, same⟩ := extremePoints_convexHull_subset corner
    rw [← same] at aside ⊢
    simp only [sliverRing_eq, List.mem_cons, List.not_mem_nil, or_false, Set.mem_ofPred_eq]
      at listed
    rcases listed with rfl | rfl | rfl | rfl | rfl
    · norm_num [turn_eq, Point.planar] at aside
    · norm_num [turn_eq, Point.planar] at aside
    · rfl
    · norm_num [turn_eq, Point.planar] at aside
    · norm_num [turn_eq, Point.planar] at aside
  obtain ⟨v, one⟩ : ∃ v, Polyline.inner way = [v] := by
    have bends := rounds.bends
    rw [rounds.ends] at bends
    rcases inner : Polyline.inner way with _ | ⟨v, _ | ⟨w, more⟩⟩
    · have reached := (corners (0, 30)).2
        ⟨sliver_corners (by simp), by norm_num [turn_eq, Point.planar]⟩
      simp [inner] at reached
    · exact ⟨v, rfl⟩
    · have atV := tip v (by simp [inner])
      have atW := tip w (by simp [inner])
      rw [inner] at bends
      simp [atV, atW, List.triplewise_cons] at bends
  have split := rounds.ends
  rw [one] at split
  have level := rounds.rises [⟨0, 0, 1⟩] v [⟨40, 30, 1⟩] split
  have place := tip v (by simp [one])
  have tipped : v = ⟨0, 30, 1⟩ := by
    ext
    · exact congrArg Prod.fst place
    · exact congrArg Prod.snd place
    · simpa using level
  rw [split, tipped]
  rfl

/-- On the way to the tip the block is in the way. -/
theorem block_obstructs_tip : 1 ∈ pairDraft.finish.obstructing ⟨0, 0, 1⟩ ⟨0, 30, 1⟩ := by
  have holds : blockOutline.contains (Point.between ⟨0, 0, 1⟩ ⟨0, 30, 1⟩ 0.5) = true := by
    have middle : Point.between (⟨0, 0, 1⟩ : Point ℝ) ⟨0, 30, 1⟩ 0.5 = ⟨0, 15, 1⟩ := by
      norm_num [Point.between]
    rw [middle, block_contains]
    norm_num
  have found : 1 ∈ pairDraft.finish.buildingGrid.along ⟨0, 0, 1⟩ ⟨0, 30, 1⟩ :=
    Draft.mem_along_of_meets pairDraft_made pairDraft_holesInBox
      ⟨block, rfl, 0.5, by norm_num, by norm_num, holds⟩
  refine List.mem_filter.2 ⟨found, ?_⟩
  simp only [Draft.finish, pairDraft, List.getElem?_toArray, List.map_toArray,
    List.getElem?_cons_zero, List.getElem?_cons_succ, List.map_cons, block_outline,
    block_insideParts]
  norm_num [Scalar.eps_eq, Building.roof, block]

/-- Around the sliver the left side runs into the block, so the block joins in. -/
theorem block_joins : ∃ next, pairDraft.finish.Joins ⟨0, 0, 1⟩ ⟨40, 30, 1⟩ [0] next ∧
    {b | b ∈ [0]} ⊂ {b | b ∈ next} ∧ 1 ∈ next ∧
    ∃ last, pairDraft.finish.Settles ⟨0, 0, 1⟩ ⟨40, 30, 1⟩ [0] last ∧ 1 ∈ last := by
  have apart : (⟨0, 0, 1⟩ : Point ℝ).planar ≠ (⟨40, 30, 1⟩ : Point ℝ).planar := by
    intro same
    have east := congrArg Prod.fst same
    norm_num [Point.planar] at east
  have out : pairDraft.finish.EndsOut ⟨0, 0, 1⟩ ⟨40, 30, 1⟩ [0] := by
    rw [Scene.EndsOut, pair_cornersAround]
    exact ⟨sliver_corners (.inl rfl), sliver_corners (.inr (.inl rfl))⟩
  obtain ⟨ahead, rest, ringed, laid⟩ :=
    Scene.exists_sidesAround pair_wholeMillimetres apart out
  have left := sliver_left (Scene.rounds_left apart ringed)
  have isNew : 1 ∈ pairDraft.finish.newlyMet
      ⟨Polyline.graded (⟨0, 0, 1⟩ :: rest.reverse ++ [⟨40, 30, 1⟩]),
        Polyline.graded (⟨0, 0, 1⟩ :: ahead ++ [⟨40, 30, 1⟩])⟩ [0] := by
    refine Scene.mem_newlyMet.2 ⟨⟨(⟨0, 0, 1⟩, ⟨0, 30, 1⟩), ?_, block_obstructs_tip⟩, by decide,
      by decide⟩
    rw [left]
    exact List.mem_append_left _ (by simp [Sequence.adjacent])
  have joins : pairDraft.finish.Joins ⟨0, 0, 1⟩ ⟨40, 30, 1⟩ [0] _ :=
    ⟨_, laid, List.ne_nil_of_mem isNew, rfl⟩
  obtain ⟨grows, -, -, last, settles, -⟩ := Scene.sides_settle ℝ pairDraft.finish ⟨0, 0, 1⟩
    ⟨40, 30, 1⟩ [0]
  refine ⟨_, joins, grows _ _ joins, List.mem_append_right _ isNew, last, settles, ?_⟩
  -- there is only one round that can come first
  rcases settles.rounds.cases_head with same | ⟨next, joins', rounds⟩
  · exact absurd (same ▸ joins) (settles.ends _)
  · obtain rfl := joins.unique joins'
    exact Scene.Settles.subset ⟨rounds, settles.ends⟩ (List.mem_append_right _ isNew)

end RoadNoise
