/-
# RoadNoise.Proofs.Outline -- what an outline holds lies in its rectangle

`Polygon.contains` looks at a polygon's rectangle with a tolerance and then counts
the edges that a ray to the east meets.  The tolerance never lets anything in: left
of the rectangle the ray meets every ring an even number of times, and on the other
three sides it meets nothing (`covers_of_contains`).  So a containing polygon can be
found by its rectangle alone.
-/
import RoadNoise.Proofs.Cleaned
import RoadNoise.Proofs.Comparison

set_option autoImplicit false

namespace RoadNoise

/-! ## Rectangles -/

/-- Between two numbers the relative position is between 0 and 1. -/
theorem share_mem {a b x : ℝ} (run : b - a ≠ 0) (low : min a b ≤ x) (high : x ≤ max a b) :
    0 ≤ (x - a) / (b - a) ∧ (x - a) / (b - a) ≤ 1 := by
  rcases lt_or_gt_of_ne run with down | up
  · rw [min_eq_right (by linarith)] at low
    rw [max_eq_left (by linarith)] at high
    exact ⟨div_nonneg_of_nonpos (by linarith) down.le, (div_le_one_of_neg down).2 (by linarith)⟩
  · rw [min_eq_left (by linarith)] at low
    rw [max_eq_right (by linarith)] at high
    exact ⟨div_nonneg (by linarith) up.le, (div_le_one up).2 (by linarith)⟩

namespace Box

/-- The point lies in the rectangle, without any tolerance. -/
def Covers (b : Box ℝ) (p : Point ℝ) : Prop :=
  (b.xmin ≤ p.x ∧ p.x ≤ b.xmax) ∧ b.ymin ≤ p.y ∧ p.y ≤ b.ymax

theorem Tight.covers {b : Box ℝ} {points : Set (Point ℝ)} (tight : b.Tight points) {p : Point ℝ}
    (member : p ∈ points) : b.Covers p :=
  ⟨⟨tight.west.2 ⟨p, member, rfl⟩, tight.east.2 ⟨p, member, rfl⟩⟩,
    tight.south.2 ⟨p, member, rfl⟩, tight.north.2 ⟨p, member, rfl⟩⟩

theorem covers_of_around? {ps : List (Point ℝ)} {b : Box ℝ} (made : around? ps = some b)
    {p : Point ℝ} (entry : p ∈ ps) : b.Covers p :=
  (tight_of_around? made (by simp [Point.isFinite])).covers entry

theorem ofSegment_covers_between {p q : Point ℝ} {t : ℝ} (start : 0 ≤ t) (stop : t ≤ 1) :
    (ofSegment p q).Covers (Point.between p q t) := by
  have inside : ∀ a b : ℝ, min a b ≤ a + (b - a) * t ∧ a + (b - a) * t ≤ max a b := by
    intro a b
    rcases le_total a b with up | down
    · rw [min_eq_left up, max_eq_right up]
      constructor <;> nlinarith
    · rw [min_eq_right down, max_eq_left down]
      constructor <;> nlinarith
  exact ⟨inside p.x q.x, inside p.y q.y⟩

end Box

/-! ## Rays -/

/-- Nothing is taken off a ring whose vertices are told apart. -/
theorem Ring.cleaned_of_pairwise {ring : List (Point ℝ)}
    (apart : ring.Pairwise fun a b => b.samePlanar a = false) : cleaned ring = ring := by
  cases ring with
  | nil => rfl
  | cons a rest =>
      obtain rfl | ⟨between, w, rfl⟩ := List.eq_nil_or_concat rest
      · rfl
      · rw [List.concat_eq_append, ← List.cons_append] at apart ⊢
        have along : ∀ u v, (u, v) ∈ Sequence.adjacent (a :: between ++ [w]) →
            v.samePlanar u = false := fun _ _ => Sequence.pairwise_of_mem_adjacent apart
        have closing : w.samePlanar a = false := (List.pairwise_cons.1 apart).1 w (by simp)
        rw [Point.samePlanar_comm] at closing
        exact (cleaned_eq_self_iff along).2 (apart_concat_iff.2 ⟨along, closing⟩)

namespace Polygon

/-- All vertices lie in the polygon's rectangle. -/
def Framed (polygon : Polygon ℝ) : Prop := ∀ v ∈ polygon.vertices, polygon.box.Covers v

/-- The polygon comes out of `Polygon.ofRings`. -/
def Drawn (polygon : Polygon ℝ) : Prop := ∃ outer holes, ofRings outer holes = .ok polygon

/-- The vertices of all holes lie in the rectangle around the outer ring. -/
def HolesInBox (polygon : Polygon ℝ) : Prop :=
  ∀ hole ∈ polygon.holes, ∀ v ∈ hole, polygon.box.Covers v

theorem Drawn.box_eq {polygon : Polygon ℝ} (drawn : polygon.Drawn) :
    Box.around? polygon.outer = some polygon.box := by
  obtain ⟨outer, holes, made⟩ := drawn
  exact (ofRings_eq_ok_iff.1 made).2.2.2

/-- A ring whose vertices are told apart is drawn as it is. -/
theorem ofRings_of_pairwise {first : Point ℝ} {rest : List (Point ℝ)} (corners : 2 ≤ rest.length)
    (apart : (first :: rest).Pairwise fun a b => b.samePlanar a = false)
    (area : Scalar.eps ≤ |Ring.area (first :: rest)|) :
    ofRings (first :: rest) [] = .ok ⟨first :: rest, [], Box.around first rest⟩ :=
  ofRings_ring (by simp [Point.isFinite]) (Ring.cleaned_of_pairwise apart).symm
    (by simpa using corners) rfl area.not_gt rfl

theorem drawn_of_pairwise {first : Point ℝ} {rest : List (Point ℝ)} (corners : 2 ≤ rest.length)
    (apart : (first :: rest).Pairwise fun a b => b.samePlanar a = false)
    (area : Scalar.eps ≤ |Ring.area (first :: rest)|) :
    Drawn ⟨first :: rest, [], Box.around first rest⟩ :=
  ⟨first :: rest, [], ofRings_of_pairwise corners apart area⟩

theorem Drawn.framed {polygon : Polygon ℝ} (drawn : polygon.Drawn)
    (holes : polygon.HolesInBox) : polygon.Framed := by
  intro v vertex
  simp only [vertices, rings, List.flatten_cons, List.mem_append, List.mem_flatten] at vertex
  rcases vertex with outer | ⟨hole, isHole, corner⟩
  · exact Box.covers_of_around? drawn.box_eq outer
  · exact holes hole isHole v corner

/-- Along a way from `a` to `c` a two-valued mark changes an even number of times
exactly when it is the same at both ends. -/
theorem countP_changes {β : Type} (mark : β → Bool) (a c : β) (l : List β) :
    ((a :: l).zip (l ++ [c])).countP (fun e => mark e.2 != mark e.1) % 2
      = (mark c != mark a).toNat := by
  induction l generalizing a with
  | nil => cases ha : mark a <;> cases hc : mark c <;> simp [ha, hc]
  | cons b l ih =>
      have rest := ih b
      simp only [List.cons_append, List.zip_cons_cons, List.countP_cons] at rest ⊢
      cases ha : mark a <;> cases hb : mark b <;> cases hc : mark c <;>
        simp only [hb, hc] at rest <;> simp <;> simp at rest <;> omega

theorem countP_changes_cyclic {β : Type} (mark : β → Bool) (ring : List β) :
    (Sequence.cyclic ring).countP (fun e => mark e.2 != mark e.1) % 2 = 0 := by
  cases ring with
  | nil => rfl
  | cons a l => simpa [Sequence.cyclic] using countP_changes mark a a l

theorem Framed.of_mem_edges {polygon : Polygon ℝ} (framed : polygon.Framed) {a b : Point ℝ}
    (edge : (a, b) ∈ polygon.edges) : polygon.box.Covers a ∧ polygon.box.Covers b := by
  obtain ⟨ring, isRing, edge⟩ := List.mem_flatMap.1 edge
  obtain ⟨first, second⟩ := Sequence.mem_of_mem_cyclic edge
  exact ⟨framed a (List.mem_flatten.2 ⟨ring, isRing, first⟩),
    framed b (List.mem_flatten.2 ⟨ring, isRing, second⟩)⟩

/-- Where a ray meets an edge, it does so between the edge's ends. -/
theorem meetsRay_iff {p a b : Point ℝ} :
    meetsRay p (a, b) = true ↔ decide (p.y < b.y) ≠ decide (p.y < a.y) ∧
      p.x < a.x + (p.y - a.y) / (b.y - a.y) * (b.x - a.x) := by
  simp [meetsRay]

theorem foot_mem {p a b : Point ℝ} (crossed : decide (p.y < b.y) ≠ decide (p.y < a.y)) :
    min a.x b.x ≤ a.x + (p.y - a.y) / (b.y - a.y) * (b.x - a.x) ∧
      a.x + (p.y - a.y) / (b.y - a.y) * (b.x - a.x) ≤ max a.x b.x := by
  have rise : b.y - a.y ≠ 0 := by
    intro level
    exact crossed (by rw [sub_eq_zero.1 level])
  have reached : min a.y b.y ≤ p.y ∧ p.y ≤ max a.y b.y := by
    by_cases below : p.y < a.y
    · have upper : ¬p.y < b.y := by simpa [below] using crossed
      exact ⟨min_le_of_right_le (not_lt.1 upper), le_max_of_le_left below.le⟩
    · have lower : p.y < b.y := by simpa [below] using crossed
      exact ⟨min_le_of_left_le (not_lt.1 below), le_max_of_le_right lower.le⟩
  obtain ⟨start, stop⟩ := share_mem rise reached.1 reached.2
  rw [mul_comm]
  exact (Box.ofSegment_covers_between (p := a) (q := b) start stop).1

variable {polygon : Polygon ℝ} {p : Point ℝ}

/-- Around all rings a two-valued mark of vertices changes an even number of times. -/
theorem countP_changes_edges (polygon : Polygon ℝ) (mark : Point ℝ → Bool) :
    polygon.edges.countP (fun e => mark e.2 != mark e.1) % 2 = 0 := by
  have rings : ∀ rs : List (List (Point ℝ)),
      (rs.flatMap Sequence.cyclic).countP (fun e => mark e.2 != mark e.1) % 2 = 0 := by
    intro rs
    induction rs with
    | nil => rfl
    | cons ring rs ih =>
        have one := countP_changes_cyclic mark ring
        rw [List.flatMap_cons, List.countP_append]
        omega
  exact rings polygon.rings

/-- Left of the rectangle a ray meets every ring an even number of times. -/
theorem even_of_west (framed : polygon.Framed) (west : p.x < polygon.box.xmin) :
    polygon.edges.countP (meetsRay p) % 2 = 0 := by
  have changes : ∀ e ∈ polygon.edges,
      meetsRay p e = true ↔ (decide (p.y < e.2.y) != decide (p.y < e.1.y)) = true := by
    rintro ⟨a, b⟩ edge
    obtain ⟨⟨⟨leftA, -⟩, -⟩, ⟨leftB, -⟩, -⟩ := framed.of_mem_edges edge
    rw [meetsRay_iff, bne_iff_ne]
    refine and_iff_left_of_imp fun crossed => ?_
    have reach := (foot_mem crossed).1
    have left : polygon.box.xmin ≤ min a.x b.x := le_min leftA leftB
    linarith
  rw [List.countP_congr changes]
  exact polygon.countP_changes_edges fun v => decide (p.y < v.y)

theorem countP_eq_zero_of_no_meet (none : ∀ a b, (a, b) ∈ polygon.edges → ¬meetsRay p (a, b)) :
    polygon.edges.countP (meetsRay p) = 0 := by
  rw [List.countP_eq_zero]
  rintro ⟨a, b⟩ edge
  exact none a b edge

/-- A place whose ray meets an odd number of edges lies in the rectangle. -/
theorem covers_of_odd (framed : polygon.Framed)
    (odd : polygon.edges.countP (meetsRay p) % 2 = 1) : polygon.box.Covers p := by
  have met : ¬∀ a b, (a, b) ∈ polygon.edges → ¬meetsRay p (a, b) := by
    intro none
    rw [countP_eq_zero_of_no_meet none] at odd
    simp at odd
  refine ⟨⟨?_, ?_⟩, ?_, ?_⟩
  · by_contra west
    have := even_of_west framed (not_le.1 west)
    omega
  · by_contra east
    refine met fun a b edge meets => ?_
    obtain ⟨⟨⟨-, rightA⟩, -⟩, ⟨-, rightB⟩, -⟩ := framed.of_mem_edges edge
    obtain ⟨crossed, reached⟩ := meetsRay_iff.1 meets
    have reach := (foot_mem crossed).2
    have right : max a.x b.x ≤ polygon.box.xmax := max_le rightA rightB
    linarith [not_le.1 east]
  · by_contra south
    refine met fun a b edge meets => ?_
    obtain ⟨⟨-, lowA, -⟩, -, lowB, -⟩ := framed.of_mem_edges edge
    have overA : p.y < a.y := lt_of_lt_of_le (not_le.1 south) lowA
    have overB : p.y < b.y := lt_of_lt_of_le (not_le.1 south) lowB
    exact (meetsRay_iff.1 meets).1 (by simp [overA, overB])
  · by_contra north
    refine met fun a b edge meets => ?_
    obtain ⟨⟨-, -, highA⟩, -, -, highB⟩ := framed.of_mem_edges edge
    have underA : ¬p.y < a.y := not_lt.2 (highA.trans (not_le.1 north).le)
    have underB : ¬p.y < b.y := not_lt.2 (highB.trans (not_le.1 north).le)
    exact (meetsRay_iff.1 meets).1 (by simp [underA, underB])

/-- What a polygon holds lies in its rectangle. -/
theorem covers_of_contains (framed : polygon.Framed) (holds : polygon.contains p = true) :
    polygon.box.Covers p :=
  covers_of_odd framed (by simpa using (Bool.and_eq_true_iff.1 holds).2)

/-- The rectangle lets nothing out: parity alone decides what a polygon holds. -/
theorem contains_iff_odd (framed : polygon.Framed) :
    polygon.contains p = true ↔ polygon.edges.countP (meetsRay p) % 2 = 1 := by
  constructor
  · intro holds
    simpa using (Bool.and_eq_true_iff.1 holds).2
  · intro odd
    obtain ⟨⟨left, right⟩, low, high⟩ := covers_of_odd framed odd
    have positive := Scalar.eps_pos
    have boxed : polygon.box.holds p = true := by
      simp only [Box.holds, Bool.and_eq_true, decide_eq_true_eq]
      exact ⟨⟨by linarith, by linarith⟩, by linarith, by linarith⟩
    rw [contains, boxed, odd]
    rfl

end Polygon

end RoadNoise
