/-
# RoadNoise.Proofs.Corners -- the corners of a convex hull

For points whose planar coordinates are whole millimetres the convex hull is exact
(`convex_encloses`): its points stand at the corners of the hull of all planar positions,
each once, counter-clockwise from the first in lexicographic order, and every edge has all
other corners strictly to its left.

Both sides of the ring are found by the scan of a lower side.  From the last point to the
first it is the scan of the places turned about (`Neg.neg`), which leaves all turns as they
are.  That the ring is strictly convex need not be followed through the scan: no place lies
to the right of an edge, and no three corners of a convex set lie on a line
(`not_collinear_of_corners`).

A ring with these properties is known by the hull alone (`Encloses.unique`), since seen from
its first corner the others follow each other counter-clockwise.
-/
import RoadNoise.Proofs.Chain
import RoadNoise.Proofs.Outline

set_option autoImplicit false

namespace RoadNoise.Hull

open scoped Pointwise

/-! ## Rings around places -/

/-- A ring that encloses some places as tightly as a convex ring can. -/
structure Encloses (places : Set (ℝ × ℝ)) (ring : List (ℝ × ℝ)) : Prop where
  corners : ∀ v, v ∈ ring ↔ v ∈ (convexHull ℝ places).extremePoints ℝ
  nodup : ring.Nodup
  first : ∀ v ∈ ring.head?, ∀ q ∈ places, toLex v ≤ toLex q
  /-- Each edge has all other corners strictly to its left. -/
  turns : ∀ e ∈ Sequence.cyclic ring, ∀ v ∈ ring, v ≠ e.1 → v ≠ e.2 → 0 < turn e.1 e.2 v
  /-- No place lies to the right of an edge. -/
  left : ∀ e ∈ Sequence.cyclic ring, ∀ q ∈ places, 0 ≤ turn e.1 e.2 q
  within : places ⊆ convexHull ℝ {v | v ∈ ring}

section Corners

variable {a b c d o : ℝ × ℝ} {k places others : Set (ℝ × ℝ)} {ring ring' l : List (ℝ × ℝ)}

theorem collinear_of_turn (flat : turn a b c = 0) : Collinear ℝ {a, b, c} := by
  by_cases same : a = b
  · subst same
    simpa using collinear_pair ℝ a c
  · have member : a ∈ ({a, b, c} : Set (ℝ × ℝ)) := Set.mem_insert a {b, c}
    have run := run_pos same
    rw [turn_eq] at flat
    refine (collinear_iff_of_mem member).2 ⟨b - a, ?_⟩
    rintro p (rfl | rfl | rfl)
    · exact ⟨0, by simp⟩
    · exact ⟨1, by simp⟩
    · refine ⟨((b.1 - a.1) * (p.1 - a.1) + (b.2 - a.2) * (p.2 - a.2))
        / ((b.1 - a.1) * (b.1 - a.1) + (b.2 - a.2) * (b.2 - a.2)), Prod.ext ?_ ?_⟩
      · simp only [vadd_eq_add, Prod.fst_add, Prod.smul_fst, Prod.fst_sub, smul_eq_mul]
        rw [← sub_eq_iff_eq_add, div_mul_eq_mul_div, eq_div_iff run.ne']
        linear_combination (a.2 - b.2) * flat
      · simp only [vadd_eq_add, Prod.snd_add, Prod.smul_snd, Prod.snd_sub, smul_eq_mul]
        rw [← sub_eq_iff_eq_add, div_mul_eq_mul_div, eq_div_iff run.ne']
        linear_combination (b.1 - a.1) * flat

/-- No three corners lie on a line. -/
theorem not_collinear_of_corners (cornerA : a ∈ k.extremePoints ℝ) (cornerB : b ∈ k.extremePoints ℝ)
    (cornerC : c ∈ k.extremePoints ℝ) (ab : a ≠ b) (bc : b ≠ c) (ca : c ≠ a) :
    ¬Collinear ℝ {a, b, c} := by
  have between : ∀ {x y z : ℝ × ℝ}, x ∈ k → y ∈ k.extremePoints ℝ → z ∈ k → Wbtw ℝ x y z →
      x = y ∨ z = y := fun memX corner memZ wbtw =>
    (mem_extremePoints_iff_forall_segment.1 corner).2 _ memX _ memZ (mem_segment_iff_wbtw.2 wbtw)
  intro line
  rcases line.wbtw_or_wbtw_or_wbtw with middle | middle | middle
  · rcases between cornerA.1 cornerB cornerC.1 middle with same | same
    · exact ab same
    · exact bc same.symm
  · rcases between cornerB.1 cornerC cornerA.1 middle with same | same
    · exact bc same
    · exact ca same.symm
  · rcases between cornerC.1 cornerA cornerB.1 middle with same | same
    · exact ca same
    · exact ab same.symm

/-- Seen from a place, those to the left of a line through it are ordered by turns. -/
theorem turn_trans {n : ℝ × ℝ} (left : 0 ≤ turn o n b) (left' : 0 < turn o n c)
    (left'' : 0 < turn o n d) (first : 0 < turn o b c) (second : 0 < turn o c d) :
    0 < turn o b d := by
  have whole : turn o n c * turn o b d = turn o n d * turn o b c + turn o n b * turn o c d := by
    simp only [turn_eq]
    ring
  refine (mul_pos_iff_of_pos_left left').1 (whole ▸ ?_)
  exact add_pos_of_pos_of_nonneg (mul_pos left'' first) (mul_nonneg left second.le)

/-- Places to the left of a line through a place follow each other counter-clockwise if each
does so after the one before it. -/
theorem pairwise_turn_of_adjacent {n : ℝ × ℝ} (left : ∀ v ∈ l, 0 ≤ turn o n v)
    (left' : ∀ v ∈ l.tail, 0 < turn o n v)
    (steps : ∀ e ∈ Sequence.adjacent l, 0 < turn o e.1 e.2) :
    l.Pairwise fun c d => 0 < turn o c d := by
  induction l with
  | nil => exact .nil
  | cons c l ih =>
      cases l with
      | nil => exact List.pairwise_singleton _ _
      | cons d l =>
          rw [Sequence.adjacent_cons_cons] at steps
          have next : 0 < turn o c d := steps (c, d) List.mem_cons_self
          have rest := ih (fun v later => left v (List.mem_cons_of_mem c later))
            (fun v later => left' v (List.mem_cons_of_mem d later))
            fun e edge => steps e (List.mem_cons_of_mem _ edge)
          refine List.pairwise_cons.2 ⟨fun v later => ?_, rest⟩
          rcases List.mem_cons.1 later with rfl | later
          · exact next
          · exact turn_trans (left c (by simp)) (left' d (by simp)) (left' v (by simp [later])) next
              ((List.pairwise_cons.1 rest).1 v later)

/-- A ring that turns counter-clockwise: each edge has all other places strictly to its left. -/
structure Turning (ring : List (ℝ × ℝ)) : Prop where
  nodup : ring.Nodup
  turns : ∀ e ∈ Sequence.cyclic ring, ∀ v ∈ ring, v ≠ e.1 → v ≠ e.2 → 0 < turn e.1 e.2 v

namespace Turning

theorem rotate {front back : List (ℝ × ℝ)} (turning : Turning (front ++ back)) :
    Turning (back ++ front) where
  nodup := List.nodup_append_comm.1 turning.nodup
  turns e edge v member := turning.turns e (Sequence.mem_cyclic_append_comm.1 edge) v
    (List.perm_append_comm.mem_iff.1 member)

/-- Seen from a corner the others follow each other counter-clockwise. -/
theorem pairwise_turn (turning : Turning (o :: l)) : l.Pairwise fun c d => 0 < turn o c d := by
  obtain ⟨off, nodup⟩ := List.nodup_cons.1 turning.nodup
  have inRing : ∀ e ∈ Sequence.adjacent l, e ∈ Sequence.cyclic (o :: l) := by
    rintro ⟨c, d⟩ edge
    obtain ⟨front, back, rfl⟩ := Sequence.mem_adjacent_iff.1 edge
    rw [Sequence.cyclic_cons]
    exact Sequence.mem_adjacent_iff.2 ⟨o :: front, back ++ [o], by simp⟩
  have steps : ∀ e ∈ Sequence.adjacent l, 0 < turn o e.1 e.2 := by
    rintro ⟨c, d⟩ edge
    obtain ⟨memC, memD⟩ := Sequence.mem_of_mem_adjacent edge
    rw [← turn_rotate]
    exact turning.turns (c, d) (inRing _ edge) o (by simp) (fun same => off (same ▸ memC))
      fun same => off (same ▸ memD)
  cases l with
  | nil => exact .nil
  | cons n l =>
      -- the edge to the next corner has all others to its left
      have left : ∀ v ∈ l, 0 < turn o n v := by
        intro v later
        have edge : (o, n) ∈ Sequence.cyclic (o :: n :: l) := by
          rw [Sequence.cyclic_cons]
          simp [Sequence.adjacent_cons_cons]
        refine turning.turns (o, n) edge v (by simp [later]) ?_ ?_
        · rintro rfl
          exact off (List.mem_cons_of_mem n later)
        · rintro rfl
          exact (List.nodup_cons.1 nodup).1 later
      refine pairwise_turn_of_adjacent (fun v member => ?_) left steps
      rcases List.mem_cons.1 member with rfl | later
      · exact (turn_right o v).ge
      · exact (left v later).le

/-- All its corners turn counter-clockwise, also those that are no neighbours. -/
theorem triplewise_turn {front : List (ℝ × ℝ)} (turning : Turning (l ++ front)) :
    l.Triplewise fun a b c => 0 < turn a b c := by
  induction l generalizing front with
  | nil => exact .nil
  | cons o l ih =>
      have turned : Turning (l ++ (front ++ [o])) := by
        rw [← List.append_assoc]
        exact rotate turning
      exact List.triplewise_cons.2 ⟨(List.pairwise_append.1 turning.pairwise_turn).1, ih turned⟩

end Turning

namespace Encloses

theorem mem_places (encloses : Encloses places ring) {v : ℝ × ℝ} (member : v ∈ ring) :
    v ∈ places :=
  extremePoints_convexHull_subset ((encloses.corners v).1 member)

theorem hull_eq (encloses : Encloses places ring) :
    convexHull ℝ {v | v ∈ ring} = convexHull ℝ places :=
  (convexHull_mono fun _ => encloses.mem_places).antisymm
    (convexHull_min encloses.within (convex_convexHull ℝ _))

theorem turning (encloses : Encloses places ring) : Turning ring :=
  ⟨encloses.nodup, encloses.turns⟩

/-- A hull has one ring. -/
theorem unique (encloses : Encloses places ring) (encloses' : Encloses others ring')
    (same : convexHull ℝ others = convexHull ℝ places) : ring' = ring := by
  have members : ∀ v, v ∈ ring' ↔ v ∈ ring := fun v => by
    rw [encloses.corners, encloses'.corners, same]
  have perm : ring'.Perm ring :=
    (List.perm_ext_iff_of_nodup encloses'.nodup encloses.nodup).2 members
  match ring, ring', encloses, encloses' with
  | [], _, _, _ => exact List.perm_nil.1 perm
  | _ :: _, [], _, _ => exact (List.nil_perm.1 perm).symm
  | o :: l, o' :: l', encloses, encloses' =>
      have first : toLex o ≤ toLex o' :=
        encloses.first o rfl o' (encloses.mem_places ((members o').1 (by simp)))
      have first' : toLex o' ≤ toLex o :=
        encloses'.first o' rfl o (encloses'.mem_places ((members o).2 (by simp)))
      obtain rfl : o' = o := toLex_inj.1 (first'.antisymm first)
      congr 1
      refine ((List.perm_cons o').1 perm).eq_of_pairwise ?_ encloses'.turning.pairwise_turn
        encloses.turning.pairwise_turn
      intro c d _ _ before after
      rw [turn_swap] at after
      linarith

theorem ne_nil (encloses : Encloses places ring) (occupied : places.Nonempty) : ring ≠ [] := by
  rintro rfl
  obtain ⟨q, member⟩ := occupied
  simpa using encloses.within member

theorem empty : Encloses ∅ [] where
  corners v := by simp
  nodup := .nil
  first := by simp
  turns := by simp [Sequence.cyclic]
  left := by simp
  within := by simp

theorem singleton (v : ℝ × ℝ) : Encloses {v} [v] where
  corners w := by simp
  nodup := List.nodup_singleton v
  first := by simp
  turns := by simp [Sequence.cyclic]
  left := by simp [Sequence.cyclic]
  within := by simp

/-- Around one place the ring has that place alone. -/
theorem length_of_subsingleton (encloses : Encloses places ring) (one : places.Subsingleton)
    (occupied : places.Nonempty) : ring.length = 1 := by
  match ring, encloses with
  | [], encloses => exact absurd rfl (encloses.ne_nil occupied)
  | [a], _ => rfl
  | a :: b :: l, encloses =>
      have same := one (encloses.mem_places (v := a) (by simp))
        (encloses.mem_places (v := b) (by simp))
      have nodup := encloses.nodup
      simp [same] at nodup

/-- Around places on a line the ring has the two ends of it. -/
theorem ends_of_collinear (encloses : Encloses places ring) (line : Collinear ℝ places)
    (apart : places.Nontrivial) : ∃ a b, ring = [a, b] ∧ convexHull ℝ places = segment ℝ a b := by
  match ring, encloses with
  | [], encloses => exact absurd rfl (encloses.ne_nil apart.nonempty)
  | [a], encloses =>
      have one : places ⊆ {a} := by simpa using encloses.within
      exact absurd (Set.subsingleton_of_subset_singleton one) apart.not_subsingleton
  | [a, b], encloses =>
      have pair : {v | v ∈ [a, b]} = ({a, b} : Set (ℝ × ℝ)) := Set.ext fun v => by simp
      exact ⟨a, b, rfl, by rw [← encloses.hull_eq, pair, convexHull_pair]⟩
  | a :: b :: c :: l, encloses =>
      have corner : ∀ v ∈ a :: b :: c :: l, v ∈ (convexHull ℝ places).extremePoints ℝ :=
        fun v => (encloses.corners v).1
      have three : ({a, b, c} : Set (ℝ × ℝ)) ⊆ places := by
        rintro v (rfl | rfl | rfl) <;> exact encloses.mem_places (by simp)
      have nodup := encloses.nodup
      simp only [List.nodup_cons, List.mem_cons, not_or] at nodup
      exact absurd (line.subset three) (not_collinear_of_corners (corner a (by simp))
        (corner b (by simp)) (corner c (by simp)) nodup.1.1 nodup.2.1.1 (Ne.symm nodup.1.2.1))

end Encloses

end Corners

/-! ## Two sides make a ring -/

section Turned

variable {a b v : ℝ × ℝ} {s : Set (ℝ × ℝ)}

theorem turn_neg (a b c : ℝ × ℝ) : turn (-a) (-b) (-c) = turn a b c := by
  simp only [turn_eq, Prod.fst_neg, Prod.snd_neg]
  ring

theorem toLex_neg_lt_neg : toLex (-a) < toLex (-b) ↔ toLex b < toLex a := by
  simp only [Prod.Lex.toLex_lt_toLex, Prod.fst_neg, Prod.snd_neg, neg_lt_neg_iff, neg_inj, eq_comm]

theorem neg_mem_extremePoints_hull_neg :
    -v ∈ (convexHull ℝ (-s)).extremePoints ℝ ↔ v ∈ (convexHull ℝ s).extremePoints ℝ := by
  have image := image_extremePoints (LinearEquiv.neg ℝ (M := ℝ × ℝ)) (convexHull ℝ s)
  rw [convexHull_neg, ← Set.image_neg_eq_neg]
  constructor
  · intro corner
    obtain ⟨w, corner, same⟩ := image.ge corner
    exact neg_injective same ▸ corner
  · exact fun corner => image.le ⟨v, corner, rfl⟩

end Turned

namespace LowerSide

variable {places : Set (ℝ × ℝ)} {side there : List (ℝ × ℝ)} {first last v : ℝ × ℝ}

theorem nodup (lower : LowerSide places side) : side.Nodup :=
  lower.onwards.imp fun before same => before.ne (congrArg toLex same)

/-- A place before the last one of a side is a corner of the hull. -/
theorem corner_of_mem (lower : LowerSide places (side ++ [last])) (member : v ∈ side) :
    v ∈ (convexHull ℝ places).extremePoints ℝ := by
  refine mem_extremePoints_of_subset ?_ (subset_convexHull ℝ _ (lower.mem v (by simp [member])))
    (convexHull_subset_above places)
  obtain ⟨front, back, rfl⟩ := List.append_of_mem member
  rw [List.append_assoc, List.cons_append] at lower
  cases back with
  | nil => exact lower.corner
  | cons b back => exact lower.corner

theorem turn_ends (lower : LowerSide places (first :: there ++ [last])) (member : v ∈ there) :
    0 < turn first v last := by
  have turns := (List.triplewise_cons.1 lower.turns).1
  exact (List.pairwise_append.1 turns).2.2 v member last (by simp)

theorem left_of_edge (lower : LowerSide places side) {e : (ℝ × ℝ) × (ℝ × ℝ)}
    (edge : e ∈ Sequence.adjacent side) {q : ℝ × ℝ} (member : q ∈ places) :
    0 ≤ turn e.1 e.2 q := by
  obtain ⟨front, back, split⟩ := Sequence.mem_adjacent_iff.1 edge
  rw [split] at lower
  exact lower.left (subset_above places member)

end LowerSide

/-- The lower side of some places, and the upper side as the lower one of the places turned
about. -/
structure Sides (places : Set (ℝ × ℝ)) (first last : ℝ × ℝ) (there back : List (ℝ × ℝ)) :
    Prop where
  lower : LowerSide places (first :: there ++ [last])
  upper : LowerSide (-places) ((last :: back ++ [first]).map Neg.neg)

namespace Sides

variable {places : Set (ℝ × ℝ)} {first last q v : ℝ × ℝ} {there back : List (ℝ × ℝ)}

theorem upper_mapped (sides : Sides places first last there back) :
    LowerSide (-places) (-last :: back.map Neg.neg ++ [-first]) := by
  simpa using sides.upper

theorem nodup (sides : Sides places first last there back) :
    (first :: there ++ last :: back).Nodup := by
  have lower := sides.lower.nodup
  have upper := sides.upper.nodup.of_map
  -- a place on both sides would turn both ways
  have disjoint : ∀ v ∈ there, v ∉ back := by
    intro v isThere isBack
    have left := sides.lower.turn_ends isThere
    have right := sides.upper_mapped.turn_ends (List.mem_map_of_mem isBack)
    rw [turn_neg, turn_rotate first last v, turn_swap first v last] at right
    linarith
  obtain ⟨isLower, -, apart⟩ := List.nodup_append.1 lower
  obtain ⟨isUpper, -, apart'⟩ := List.nodup_append.1 upper
  refine List.nodup_append.2 ⟨isLower, isUpper, ?_⟩
  rintro v isThere _ isBack rfl
  rcases List.mem_cons.1 isThere with rfl | inner
  · exact apart' v isBack v (by simp) rfl
  · rcases List.mem_cons.1 isBack with rfl | inner'
    · exact apart v isThere v (by simp) rfl
    · exact disjoint v inner inner'

theorem left (sides : Sides places first last there back) {e : (ℝ × ℝ) × (ℝ × ℝ)}
    (edge : e ∈ Sequence.cyclic (first :: there ++ last :: back)) (member : q ∈ places) :
    0 ≤ turn e.1 e.2 q := by
  rw [Sequence.cyclic_cons_append_cons, List.mem_append] at edge
  rcases edge with lower | upper
  · exact sides.lower.left_of_edge lower member
  · rw [← turn_neg]
    refine sides.upper.left_of_edge (e := (-e.1, -e.2)) ?_ (by simpa using member)
    rw [Sequence.adjacent_map]
    exact List.mem_map_of_mem upper

theorem edge_ne (sides : Sides places first last there back) {a b : ℝ × ℝ}
    (edge : (a, b) ∈ Sequence.cyclic (first :: there ++ last :: back)) : a ≠ b := by
  rw [Sequence.cyclic_cons_append_cons, List.mem_append] at edge
  rcases edge with lower | upper
  · exact Sequence.pairwise_of_mem_adjacent sides.lower.nodup lower
  · exact Sequence.pairwise_of_mem_adjacent sides.upper.nodup.of_map upper

theorem corner (sides : Sides places first last there back)
    (member : v ∈ first :: there ++ last :: back) : v ∈ (convexHull ℝ places).extremePoints ℝ := by
  rcases List.mem_append.1 member with isThere | isBack
  · exact sides.lower.corner_of_mem isThere
  · exact neg_mem_extremePoints_hull_neg.1
      (sides.upper_mapped.corner_of_mem (List.mem_map_of_mem isBack))

theorem mem_places (sides : Sides places first last there back)
    (member : v ∈ first :: there ++ last :: back) : v ∈ places :=
  extremePoints_convexHull_subset (sides.corner member)

theorem within (sides : Sides places first last there back) :
    places ⊆ convexHull ℝ {v | v ∈ first :: there ++ last :: back} := by
  intro q member
  obtain ⟨y, low, inLower⟩ := sides.lower.below member
  obtain ⟨y', high, inUpper⟩ := sides.upper.below (Set.neg_mem_neg.2 member)
  have around : {v | v ∈ (last :: back ++ [first]).map Neg.neg}
      = -{v | v ∈ last :: back ++ [first]} := by
    ext v
    simp [neg_eq_iff_eq_neg]
  rw [around, convexHull_neg, Set.mem_neg] at inUpper
  -- the place is between one of the lower side and one of the upper
  have upright : q ∈ segment ℝ (q.1, y) (q.1, -y') := by
    rw [← Prod.image_mk_segment_right, segment_eq_Icc (low.trans (le_neg.1 high))]
    exact ⟨q.2, ⟨low, le_neg.1 high⟩, rfl⟩
  refine (convex_convexHull ℝ _).segment_subset ?_ ?_ upright
  · refine convexHull_mono ?_ inLower
    intro v member
    simp only [Set.mem_ofPred_eq, List.mem_append, List.mem_cons] at member ⊢
    tauto
  · have inUpper : (q.1, -y') ∈ convexHull ℝ {v | v ∈ last :: back ++ [first]} := by
      simpa using inUpper
    refine convexHull_mono ?_ inUpper
    intro v member
    simp only [Set.mem_ofPred_eq, List.mem_append, List.mem_cons] at member ⊢
    tauto

theorem encloses (sides : Sides places first last there back) :
    Encloses places (first :: there ++ last :: back) where
  corners v := by
    refine ⟨sides.corner, fun corner => ?_⟩
    have sub : {v | v ∈ first :: there ++ last :: back} ⊆ convexHull ℝ places :=
      fun v member => (sides.corner member).1
    have inside := convexHull_min sides.within (convex_convexHull ℝ _) corner.1
    have corner' := mem_extremePoints_of_subset corner inside
      (convexHull_min sub (convex_convexHull ℝ _))
    have member : v ∈ {v | v ∈ first :: there ++ last :: back} :=
      extremePoints_convexHull_subset corner'
    exact member
  nodup := sides.nodup
  first v head q member := by
    obtain rfl : first = v := by simpa using head
    exact sides.lower.first_le member
  turns := by
    rintro ⟨a, b⟩ edge v member other other'
    obtain ⟨memA, memB⟩ := Sequence.mem_of_mem_cyclic edge
    refine (sides.left edge (sides.mem_places member)).lt_of_ne fun flat => ?_
    exact not_collinear_of_corners (sides.corner memA) (sides.corner memB) (sides.corner member)
      (sides.edge_ne edge) other'.symm other (collinear_of_turn flat.symm)
  left e edge q member := sides.left edge member
  within := sides.within

end Sides

/-! ## The scan -/

section Scan

variable {β : Type} {superfluous : β → β → β → Bool} {p q : β} {l mid : List β}

/-- The stack that a scan leaves. -/
def scan (superfluous : β → β → β → Bool) (l : List β) : List β :=
  l.foldl (fun stack p => p :: slacken superfluous p stack) []

theorem scan_concat (superfluous : β → β → β → Bool) (l : List β) (p : β) :
    scan superfluous (l ++ [p]) = p :: slacken superfluous p (scan superfluous l) := by
  rw [scan, List.foldl_append]
  rfl

theorem scan_subset (superfluous : β → β → β → Bool) (l : List β) : scan superfluous l ⊆ l := by
  induction l using List.reverseRecOn with
  | nil => exact List.Subset.refl _
  | append_singleton l p ih =>
      rw [scan_concat]
      refine List.cons_subset.2 ⟨by simp, fun b held => List.mem_append_left _ (ih ?_)⟩
      exact (slacken_suffix superfluous p _).subset held

theorem scan_map {γ : Type} {superfluous' : γ → γ → γ → Bool} {f : β → γ}
    (alike : ∀ a ∈ l, ∀ b ∈ l, ∀ p ∈ l, superfluous a b p = superfluous' (f a) (f b) (f p)) :
    (scan superfluous l).map f = scan superfluous' (l.map f) := by
  induction l using List.reverseRecOn with
  | nil => rfl
  | append_singleton l p ih =>
      have earlier : ∀ b ∈ scan superfluous l, b ∈ l ++ [p] := fun b held =>
        List.mem_append_left _ (scan_subset superfluous l held)
      rw [List.map_append, List.map_singleton, scan_concat, scan_concat, List.map_cons,
        slacken_map fun a memA b memB => alike a (earlier a memA) b (earlier b memB) p (by simp),
        ih fun a memA b memB c memC => alike a (List.mem_append_left _ memA) b
          (List.mem_append_left _ memB) c (List.mem_append_left _ memC)]

theorem getLast?_scan (superfluous : β → β → β → Bool) (p : β) (l : List β) :
    (scan superfluous (p :: l)).getLast? = some p := by
  induction l using List.reverseRecOn with
  | nil => simp [scan, slacken]
  | append_singleton l q ih =>
      have held : scan superfluous (p :: l) ≠ [] := by
        intro none
        simp [none] at ih
      obtain ⟨b, rest, kept⟩ := List.exists_cons_of_ne_nil (slacken_ne_nil superfluous q held)
      rw [← List.cons_append, scan_concat, kept, List.getLast?_cons_cons, ← kept, getLast?_slacken,
        ih]

/-- What a scan leaves leads from the first entry to the last. -/
theorem exists_reverse_scan (superfluous : β → β → β → Bool) (p q : β) (mid : List β) :
    ∃ there, (scan superfluous (p :: mid ++ [q])).tail.reverse = p :: there ∧
      (scan superfluous (p :: mid ++ [q])).reverse = p :: there ++ [q] := by
  have first := getLast?_scan superfluous p mid
  rw [← getLast?_slacken superfluous q] at first
  obtain ⟨rest, kept⟩ := List.getLast?_eq_some_iff.1 first
  rw [scan_concat, kept]
  exact ⟨rest.reverse, by simp, by simp⟩

/-- Over places that lead on a scan keeps a lower side. -/
theorem keeps_scan {l : List (ℝ × ℝ)} (onwards : l.Pairwise fun a b => toLex a < toLex b) :
    Keeps l (scan dented l) := by
  induction l using List.reverseRecOn with
  | nil => exact ⟨by simp [scan], ⟨.nil, .nil⟩, by simp⟩
  | append_singleton l p ih =>
      obtain ⟨earlier, -, before⟩ := List.pairwise_append.1 onwards
      have keeps := ih earlier
      have after : ∀ b ∈ scan dented l, toLex b < toLex p := fun b held =>
        before b (keeps.mem b held) p (by simp)
      rw [scan_concat]
      exact keeps.push (fun b held => (after b held).le) fun b held =>
        after b ((slacken_suffix dented p _).subset held)

theorem lowerSide_scan {f : Point ℝ → ℝ × ℝ} {l : List (Point ℝ)}
    (alike : ∀ a ∈ l, ∀ b ∈ l, ∀ p ∈ l, noLeftTurn a b p = dented (f a) (f b) (f p))
    (onwards : l.Pairwise fun a b => toLex (f a) < toLex (f b)) :
    LowerSide {q | q ∈ l.map f} ((scan noLeftTurn l).reverse.map f) := by
  rw [List.map_reverse, scan_map alike]
  exact (keeps_scan (List.pairwise_map.2 onwards)).lowerSide

end Scan

/-! ## The convex hull -/

section Convex

variable {points : List (Point ℝ)} {a b p q : Point ℝ} {mid : List (Point ℝ)}

theorem noLeftTurn_eq (wholeA : WholeMillimetres a.planar) (wholeB : WholeMillimetres b.planar)
    (wholeP : WholeMillimetres p.planar) :
    noLeftTurn a b p = dented a.planar b.planar p.planar :=
  decide_eq_decide.2 (turn_le_eps_iff wholeA wholeB wholeP)

theorem samePlanar_iff (wholeP : WholeMillimetres p.planar) (wholeQ : WholeMillimetres q.planar) :
    p.samePlanar q = true ↔ p.planar = q.planar := by
  obtain ⟨m, n, placeP⟩ := wholeP
  obtain ⟨m', n', placeQ⟩ := wholeQ
  have east : Scalar.near p.x q.x = true ↔ p.x = q.x :=
    near_iff_eq (congrArg Prod.fst placeP) (congrArg Prod.fst placeQ)
  have north : Scalar.near p.y q.y = true ↔ p.y = q.y :=
    near_iff_eq (congrArg Prod.snd placeP) (congrArg Prod.snd placeQ)
  rw [Point.samePlanar, Bool.and_eq_true, east, north, Prod.ext_iff]
  rfl

section Sides

variable {l : List (Point ℝ)} (whole : ∀ b ∈ l, WholeMillimetres b.planar)
  (onwards : l.Pairwise fun a b => toLex a.planar < toLex b.planar)
include whole onwards

theorem lowerSide_there :
    LowerSide {v | v ∈ l.map Point.planar} ((scan noLeftTurn l).reverse.map Point.planar) :=
  lowerSide_scan (fun a memA b memB c memC =>
    noLeftTurn_eq (whole a memA) (whole b memB) (whole c memC)) onwards

theorem lowerSide_back : LowerSide (-{v | v ∈ l.map Point.planar})
    ((scan noLeftTurn l.reverse).reverse.map fun b => -b.planar) := by
  have places : {v | v ∈ l.reverse.map fun b => -b.planar} = -{v | v ∈ l.map Point.planar} := by
    ext v
    simp only [Set.mem_ofPred_eq, Set.mem_neg, List.mem_map, List.mem_reverse, neg_eq_iff_eq_neg]
  rw [← places]
  refine lowerSide_scan (fun a memA b memB c memC => ?_)
    (List.pairwise_reverse.2 (onwards.imp toLex_neg_lt_neg.2))
  rw [noLeftTurn_eq (whole a (List.mem_reverse.1 memA)) (whole b (List.mem_reverse.1 memB))
    (whole c (List.mem_reverse.1 memC)), dented, dented, turn_neg]

end Sides

/-- The two sides of points that lead on enclose them. -/
theorem encloses_sides (whole : ∀ b ∈ p :: mid ++ [q], WholeMillimetres b.planar)
    (onwards : (p :: mid ++ [q]).Pairwise fun a b => toLex a.planar < toLex b.planar) :
    Encloses {v | v ∈ (p :: mid ++ [q]).map Point.planar}
      ((side (p :: mid ++ [q]) ++ side (p :: mid ++ [q]).reverse).map Point.planar) := by
  have turned : (p :: mid ++ [q]).reverse = q :: mid.reverse ++ [p] := by simp
  obtain ⟨there, isSide, isStack⟩ := exists_reverse_scan noLeftTurn p q mid
  obtain ⟨back, isSide', isStack'⟩ := exists_reverse_scan noLeftTurn q p mid.reverse
  have lower := lowerSide_there whole onwards
  have upper := lowerSide_back whole onwards
  rw [isStack] at lower
  rw [turned, isStack'] at upper
  have sides : Sides {v | v ∈ (p :: mid ++ [q]).map Point.planar} p.planar q.planar
      (there.map Point.planar) (back.map Point.planar) :=
    ⟨by simpa using lower, by simpa [Function.comp_def] using upper⟩
  have ring : (side (p :: mid ++ [q]) ++ side (p :: mid ++ [q]).reverse).map Point.planar
      = p.planar :: there.map Point.planar ++ q.planar :: back.map Point.planar := by
    rw [side, side, ← scan, ← scan, turned, isSide, isSide', List.map_append, List.map_cons,
      List.map_cons]
  rw [ring]
  exact sides.encloses

/-- The points from west to east, one of those at each place. -/
noncomputable def sites (points : List (Point ℝ)) : List (Point ℝ) :=
  Sequence.thin Point.samePlanar (Sequence.sortOn Point.order points)

theorem mem_of_mem_sites (site : p ∈ sites points) : p ∈ points :=
  Sequence.mem_sortOn.1 (Sequence.mem_of_mem_thin site)

theorem convex_eq (points : List (Point ℝ)) : convex points = if (sites points).length < 3
    then sites points else side (sites points) ++ side (sites points).reverse := rfl

/-- Two points are their own hull, which is what their two sides make as well. -/
theorem convex_of_sites (split : sites points = p :: mid ++ [q]) :
    convex points = side (p :: mid ++ [q]) ++ side (p :: mid ++ [q]).reverse := by
  rw [convex_eq, split]
  cases mid with
  | nil => simp [side, slacken]
  | cons b mid => simp

theorem mem_of_mem_side (member : p ∈ side points) : p ∈ points :=
  scan_subset noLeftTurn points (List.mem_of_mem_tail (List.mem_reverse.1 member))

theorem mem_of_mem_convex (member : p ∈ convex points) : p ∈ points := by
  rw [convex_eq] at member
  refine mem_of_mem_sites ?_
  split at member
  · exact member
  · rcases List.mem_append.1 member with isThere | isBack
    · exact mem_of_mem_side isThere
    · exact List.mem_reverse.1 (mem_of_mem_side isBack)

variable (whole : ∀ p ∈ points, WholeMillimetres p.planar)
include whole

theorem pairwise_sites : (sites points).Pairwise fun a b => toLex a.planar < toLex b.planar := by
  refine Sequence.pairwise_lt_thin (fun p : Point ℝ => toLex p.planar) ?_ ?_
  · intro a memA b memB
    rw [samePlanar_iff (whole b (Sequence.mem_sortOn.1 memB))
      (whole a (Sequence.mem_sortOn.1 memA)), toLex_inj]
  · refine Sequence.pairwise_sortOn_of_key (fun p => toLex p.planar) (fun a b => ?_) points
    rw [Point.order, Sequence.isLE_then_iff, Prod.Lex.toLex_le_toLex]
    rfl

theorem places_sites :
    {v | v ∈ (sites points).map Point.planar} = Point.planar '' {p | p ∈ points} := by
  ext v
  rw [Set.mem_ofPred_eq, List.mem_map]
  constructor
  · rintro ⟨p, site, rfl⟩
    exact ⟨p, mem_of_mem_sites site, rfl⟩
  · rintro ⟨p, member, rfl⟩
    obtain ⟨k, site, same⟩ := Sequence.exists_same_of_mem Point.samePlanar
      (fun b => by simp [Point.samePlanar, Scalar.eps_pos]) (Sequence.mem_sortOn.2 member)
    have wholeK := whole k (mem_of_mem_sites site)
    exact ⟨k, site, ((samePlanar_iff (whole p member) wholeK).1 same).symm⟩

theorem encloses_convex :
    Encloses (Point.planar '' {p | p ∈ points}) ((convex points).map Point.planar) := by
  have onwards := pairwise_sites whole
  rw [← places_sites whole]
  rcases split : sites points with _ | ⟨p, rest⟩
  · rw [convex_eq, split]
    simpa using Encloses.empty
  · rcases List.eq_nil_or_concat rest with rfl | ⟨mid, q, isRest⟩
    · rw [convex_eq, split]
      simpa using Encloses.singleton p.planar
    · rw [isRest, List.concat_eq_append, ← List.cons_append] at split ⊢
      rw [split] at onwards
      have whole' : ∀ b ∈ p :: mid ++ [q], WholeMillimetres b.planar := fun b site =>
        whole b (mem_of_mem_sites (split ▸ site))
      rw [convex_of_sites split]
      exact encloses_sides whole' onwards

/-- For points in whole millimetres the convex hull is the ring of the corners of the hull,
and so it does not depend on the order of the points nor on how often each occurs.  Points
at one place leave one of them, points on a line the two ends, and a hull is its own hull. -/
theorem convex_encloses :
    (∀ p ∈ convex points, p ∈ points) ∧
    Encloses (Point.planar '' {p | p ∈ points}) ((convex points).map Point.planar) ∧
    ((Point.planar '' {p | p ∈ points}).Subsingleton → points ≠ [] → (convex points).length = 1) ∧
    (Collinear ℝ (Point.planar '' {p | p ∈ points}) →
      (Point.planar '' {p | p ∈ points}).Nontrivial →
      ∃ a b, (convex points).map Point.planar = [a, b] ∧ hull points = segment ℝ a b) ∧
    (∀ others : List (Point ℝ),
      Point.planar '' {p | p ∈ others} = Point.planar '' {p | p ∈ points} →
      (convex others).map Point.planar = (convex points).map Point.planar) ∧
    convex (convex points) = convex points := by
  have ring := encloses_convex whole
  refine ⟨fun p => mem_of_mem_convex, ring, ?one, ?line, ?others, ?again⟩
  case one =>
    intro one occupied
    obtain ⟨p, member⟩ := List.exists_mem_of_ne_nil points occupied
    simpa using ring.length_of_subsingleton one ⟨p.planar, p, member, rfl⟩
  case line => exact ring.ends_of_collinear
  case others =>
    intro others same
    have whole' : ∀ p ∈ others, WholeMillimetres p.planar := by
      intro p member
      obtain ⟨q, member', place⟩ := same.le ⟨p, member, rfl⟩
      exact place ▸ whole q member'
    exact ring.unique (encloses_convex whole') (congrArg (convexHull ℝ) same)
  case again =>
    have whole' : ∀ p ∈ convex points, WholeMillimetres p.planar := fun p member =>
      whole p (mem_of_mem_convex member)
    have corners : Point.planar '' {p | p ∈ convex points}
        = {v | v ∈ (convex points).map Point.planar} := Set.ext fun v => List.mem_map.symm
    have hulls : convexHull ℝ (Point.planar '' {p | p ∈ convex points})
        = convexHull ℝ (Point.planar '' {p | p ∈ points}) := by
      rw [corners, ring.hull_eq]
    exact Sequence.eq_of_map_eq (fun p => mem_of_mem_convex) ring.nodup
      (ring.unique (encloses_convex whole') hulls)

end Convex

/-- A square yard in metres, with a point within, one on a side and a corner twice. -/
noncomputable def yard : List (Point ℝ) :=
  [((3 : ℤ), (3 : ℤ), (0 : ℤ)), (0, 0, 1), (3, 0, 2), (1, 1, 3), (0, 3, 4), (3, 1, 5),
    (0, 0, 6)].map fun (m, n, z) => ⟨m, n, z⟩

/-- The ring around the yard is its own hull, and that of the points listed from behind. -/
theorem convex_yard : (∀ p ∈ yard, WholeMillimetres p.planar) ∧
    (convex yard.reverse).map Point.planar = (convex yard).map Point.planar ∧
    convex (convex yard) = convex yard := by
  have whole : ∀ p ∈ yard, WholeMillimetres p.planar := by
    intro p member
    obtain ⟨⟨m, n, z⟩, -, rfl⟩ := List.mem_map.1 member
    exact wholeMillimetres_metres m n
  obtain ⟨-, -, -, -, others, again⟩ := convex_encloses whole
  exact ⟨whole, others yard.reverse (by simp only [List.mem_reverse]), again⟩

end RoadNoise.Hull
