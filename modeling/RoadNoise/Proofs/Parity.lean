/-
# RoadNoise.Proofs.Parity -- where a segment goes in and out

Whether a place is inside is the parity of the edges that a ray to the east meets.  Along
a segment single edges come and go: when the ray passes the height of a vertex, the two
edges at the vertex change places or appear together.  Near a place the changes are those
of a mark around the rings, so they are even in number, unless the place lies on an edge
that is not parallel to the segment (`contains_near`).  So a segment stays inside or
outside as long as it touches no such edge (`contains_steady`), and where it touches one
it has a boundary crossing (`exists_crossing`).
-/
import RoadNoise.Proofs.Mirror
import RoadNoise.Proofs.Outline

set_option autoImplicit false

namespace RoadNoise

open Topology

/-! ## Places on edges -/

namespace Point

/-- Seen from above, the place lies on the edge. -/
def On (p : Point ℝ) (e : Edge ℝ) : Prop :=
  ∃ s, (0 ≤ s ∧ s ≤ 1) ∧ p.Above (between e.1 e.2 s)

theorem On.swap {p a b : Point ℝ} (on : p.On (a, b)) : p.On (b, a) := by
  obtain ⟨s, ⟨start, stop⟩, x, y⟩ := on
  refine ⟨1 - s, ⟨by linarith, by linarith⟩, ?_, ?_⟩
  · rw [x]
    simp only [between]
    ring
  · rw [y]
    simp only [between]
    ring

/-- A place of the line at a height between those of the ends lies on the edge. -/
theorem on_of_sideOf_eq_zero {p a b : Point ℝ} (up : a.y < b.y) (low : a.y ≤ p.y)
    (high : p.y ≤ b.y) (onLine : p.sideOf a b = 0) : p.On (a, b) := by
  have rise : b.y - a.y ≠ 0 := by linarith
  refine ⟨(p.y - a.y) / (b.y - a.y), ⟨?_, ?_⟩, ?_, ?_⟩
  · exact div_nonneg (by linarith) (by linarith)
  · exact (div_le_one (by linarith)).2 (by linarith)
  · rw [sideOf_eq] at onLine
    simp only [between]
    field_simp
    linarith
  · simp only [between]
    field_simp
    ring

/-- A place between the ends of a level edge lies on it. -/
theorem on_of_level {p a b : Point ℝ} (atFirst : a.y = p.y) (atSecond : b.y = p.y)
    (west : a.x ≤ p.x) (east : p.x < b.x) : p.On (a, b) := by
  have long : b.x - a.x ≠ 0 := by linarith
  refine ⟨(p.x - a.x) / (b.x - a.x), ⟨?_, ?_⟩, ?_, ?_⟩
  · exact div_nonneg (by linarith) (by linarith)
  · exact (div_le_one (by linarith)).2 (by linarith)
  · simp only [between]
    field_simp
    ring
  · simp only [between, atFirst, atSecond]
    ring

/-- The vertex lies due east of the place. -/
noncomputable def dueEast (p v : Point ℝ) : Bool := decide (v.y = p.y) && decide (p.x < v.x)

theorem dueEast_eq_false {p v : Point ℝ} (apart : v.y ≠ p.y) : p.dueEast v = false := by
  simp [dueEast, apart]

theorem dueEast_eq {p v : Point ℝ} (level : v.y = p.y) : p.dueEast v = decide (p.x < v.x) := by
  simp [dueEast, level]

end Point

/-! ## Rays near a place -/

/-- A quantity that does not vanish, or does so for good, keeps its sign nearby. -/
theorem eventually_pos_iff {f : ℝ → ℝ} {t₀ : ℝ} (continuous : ContinuousAt f t₀)
    (steady : f t₀ = 0 → ∀ t, f t = 0) : ∀ᶠ t in 𝓝 t₀, (0 < f t ↔ 0 < f t₀) := by
  rcases lt_trichotomy (f t₀) 0 with below | zero | above
  · filter_upwards [continuous.eventually_lt continuousAt_const below] with t still
    exact iff_of_false still.not_gt below.not_gt
  · filter_upwards with t
    rw [steady zero t, zero]
  · filter_upwards [continuousAt_const.eventually_lt continuous above] with t still
    exact iff_of_true still above

namespace Polygon

/-- The ray meets an edge that leads up if it starts on its left, at a height between
its ends. -/
theorem meetsRay_up {p a b : Point ℝ} (up : a.y < b.y) : meetsRay p (a, b) = true ↔
    (a.y ≤ p.y ∧ p.y < b.y) ∧ 0 < p.sideOf a b := by
  have rise : 0 < b.y - a.y := by linarith
  rw [meetsRay_iff]
  refine and_congr ?_ ?_
  · rcases lt_or_ge p.y a.y with below | above
    · simp [below, below.trans up, below.not_ge]
    · rcases lt_or_ge p.y b.y with inside | beyond
      · simp [above, inside, above.not_gt]
      · simp [beyond.not_gt, above.not_gt]
  · rw [← sub_lt_iff_lt_add', div_mul_eq_mul_div, lt_div_iff₀ rise, Point.sideOf_eq, ← sub_pos]
    constructor <;> intro inequality <;> linarith

theorem meetsRay_level {p a b : Point ℝ} (level : a.y = b.y) : meetsRay p (a, b) = false := by
  rw [← Bool.not_eq_true, meetsRay_iff, level]
  simp

theorem meetsRay_swap (p a b : Point ℝ) : meetsRay p (b, a) = meetsRay p (a, b) := by
  by_cases level : a.y = b.y
  · rw [meetsRay_level level, meetsRay_level level.symm]
  · have apart : b.y - a.y ≠ 0 := sub_ne_zero.2 (Ne.symm level)
    have apart' : a.y - b.y ≠ 0 := sub_ne_zero.2 level
    have foot : b.x + (p.y - b.y) / (a.y - b.y) * (a.x - b.x)
        = a.x + (p.y - a.y) / (b.y - a.y) * (b.x - a.x) := by
      field_simp
      ring
    rw [Bool.eq_iff_iff, meetsRay_iff, meetsRay_iff, foot, ne_comm]

variable {p q : Point ℝ} {t₀ : ℝ}

/-- The rays from places near a place of the segment meet an edge as its own ray does,
but for a change at each end due east of it when they pass below. -/
def SteadyAt (p q : Point ℝ) (t₀ : ℝ) (e : Edge ℝ) : Prop :=
  ∀ᶠ t in 𝓝 t₀, meetsRay (Point.between p q t) e
    = (meetsRay (Point.between p q t₀) e !=
      (decide ((Point.between p q t).y < (Point.between p q t₀).y) &&
        ((Point.between p q t₀).dueEast e.2 != (Point.between p q t₀).dueEast e.1)))

theorem continuousAt_y : ContinuousAt (fun t => (Point.between p q t).y) t₀ := by
  simp only [Point.between]
  fun_prop

theorem eventually_y_lt {c : ℝ} (below : (Point.between p q t₀).y < c) :
    ∀ᶠ t in 𝓝 t₀, (Point.between p q t).y < c :=
  continuousAt_y.eventually_lt continuousAt_const below

theorem eventually_lt_y {c : ℝ} (above : c < (Point.between p q t₀).y) :
    ∀ᶠ t in 𝓝 t₀, c < (Point.between p q t).y :=
  continuousAt_const.eventually_lt continuousAt_y above

/-- Places near one at the heights of an edge are on the same side of it. -/
theorem eventually_sideOf_pos_iff {a b : Point ℝ} (up : a.y < b.y)
    (low : a.y ≤ (Point.between p q t₀).y) (high : (Point.between p q t₀).y ≤ b.y)
    (grazing : (Point.between p q t₀).On (a, b) → (q - p).cross (b - a) = 0) :
    ∀ᶠ t in 𝓝 t₀, (0 < (Point.between p q t).sideOf a b ↔
      0 < (Point.between p q t₀).sideOf a b) := by
  have sides : ∀ t, (Point.between p q t).sideOf a b
      = p.sideOf a b - t * (q - p).cross (b - a) := by
    intro t
    simp only [Point.sideOf_eq, Point.between, Displacement.cross, sub_dx, sub_dy]
    ring
  refine eventually_pos_iff (f := fun t => (Point.between p q t).sideOf a b) ?_ ?_
  · simp only [sides]
    fun_prop
  · intro onLine t
    have parallel := grazing (Point.on_of_sideOf_eq_zero up low high onLine)
    simp only [sides, parallel, mul_zero] at onLine ⊢
    exact onLine

theorem sideOf_pos_iff_of_level_first {m a b : Point ℝ} (up : a.y < b.y) (level : m.y = a.y) :
    0 < m.sideOf a b ↔ m.x < a.x := by
  have factor : m.sideOf a b = (b.y - a.y) * (a.x - m.x) := by
    rw [Point.sideOf_eq, level]
    ring
  rw [factor, mul_pos_iff_of_pos_left (sub_pos.2 up), sub_pos]

theorem sideOf_pos_iff_of_level_second {m a b : Point ℝ} (up : a.y < b.y) (level : m.y = b.y) :
    0 < m.sideOf a b ↔ m.x < b.x := by
  have factor : m.sideOf a b = (b.y - a.y) * (b.x - m.x) := by
    rw [Point.sideOf_eq, level]
    ring
  rw [factor, mul_pos_iff_of_pos_left (sub_pos.2 up), sub_pos]

/-- An edge that leads up, by the height of the place: below the edge, at its lower end,
beside it, at its upper end, above it. -/
theorem steadyAt_up {a b : Point ℝ} (up : a.y < b.y)
    (grazing : (Point.between p q t₀).On (a, b) → (q - p).cross (b - a) = 0) :
    SteadyAt p q t₀ (a, b) := by
  have sameSide := fun low high => eventually_sideOf_pos_iff up low high grazing
  have nearBelow : ∀ c, (Point.between p q t₀).y < c →
      ∀ᶠ t in nhds t₀, (Point.between p q t).y < c := fun c => eventually_y_lt
  have nearAbove : ∀ c, c < (Point.between p q t₀).y →
      ∀ᶠ t in nhds t₀, c < (Point.between p q t).y := fun c => eventually_lt_y
  unfold SteadyAt
  generalize Point.between p q t₀ = m at sameSide nearBelow nearAbove ⊢
  have below : ∀ x : Point ℝ, x.y < a.y → meetsRay x (a, b) = false := by
    intro x lower
    rw [← Bool.not_eq_true, meetsRay_up up]
    exact fun meets => lower.not_ge meets.1.1
  have above : ∀ x : Point ℝ, b.y ≤ x.y → meetsRay x (a, b) = false := by
    intro x higher
    rw [← Bool.not_eq_true, meetsRay_up up]
    exact fun meets => higher.not_gt meets.1.2
  rcases lt_trichotomy m.y a.y with lower | atFirst | higher
  · filter_upwards [nearBelow a.y lower] with t still
    rw [below _ still, below m lower, Point.dueEast_eq_false lower.ne',
      Point.dueEast_eq_false (lower.trans up).ne']
    simp
  · filter_upwards [nearBelow b.y (atFirst.trans_lt up),
      sameSide atFirst.ge (atFirst.trans_lt up).le] with t still side
    have own : meetsRay m (a, b) = decide (m.x < a.x) := by
      rw [Bool.eq_iff_iff, meetsRay_up up, sideOf_pos_iff_of_level_first up atFirst]
      simp [atFirst, up]
    rw [Point.dueEast_eq atFirst.symm, Point.dueEast_eq_false (atFirst.trans_lt up).ne', own,
      Bool.eq_iff_iff, meetsRay_up up, side, sideOf_pos_iff_of_level_first up atFirst, ← atFirst]
    by_cases east : m.x < a.x
    · simp [east, still]
    · simp [east]
  · rcases lt_trichotomy m.y b.y with inside | atSecond | beyond
    · filter_upwards [nearBelow b.y inside, nearAbove a.y higher,
        sameSide higher.le inside.le] with t still still' side
      have own : meetsRay m (a, b) = decide (0 < m.sideOf a b) := by
        rw [Bool.eq_iff_iff, meetsRay_up up]
        simp [higher.le, inside]
      rw [Point.dueEast_eq_false higher.ne, Point.dueEast_eq_false inside.ne', own,
        Bool.eq_iff_iff, meetsRay_up up, side]
      simp [still, still'.le]
    · filter_upwards [nearAbove a.y higher, sameSide higher.le atSecond.le] with t still side
      rw [Point.dueEast_eq_false higher.ne, Point.dueEast_eq atSecond.symm,
        above m atSecond.ge, Bool.eq_iff_iff, meetsRay_up up, side,
        sideOf_pos_iff_of_level_second up atSecond, ← atSecond]
      simp [still.le]
    · filter_upwards [nearAbove b.y beyond] with t still
      rw [above _ still.le, above m beyond.le, Point.dueEast_eq_false higher.ne,
        Point.dueEast_eq_false beyond.ne]
      simp

/-- A level edge meets no ray, and its ends lie on one side of a place that is not on it. -/
theorem steadyAt_level {a b : Point ℝ} (level : a.y = b.y)
    (grazing : (Point.between p q t₀).On (a, b) → (q - p).cross (b - a) = 0) :
    SteadyAt p q t₀ (a, b) := by
  have heights : ∀ t, (Point.between p q t).y
      = (Point.between p q t₀).y + (t - t₀) * (q.y - p.y) := by
    intro t
    simp only [Point.between]
    ring
  refine .of_forall fun t => ?_
  rw [meetsRay_level level, meetsRay_level level]
  generalize Point.between p q t₀ = m at *
  by_cases passes : m.y = a.y ∧ (Point.between p q t).y < m.y
  · -- the ends lie on one side of the place, for the edge is not parallel to the segment
    obtain ⟨atHeight, falls⟩ := passes
    suffices same : m.x < b.x ↔ m.x < a.x by
      simp [Point.dueEast_eq atHeight.symm, Point.dueEast_eq (atHeight.trans level).symm, same]
    have apart : m.On (a, b) → b.x = a.x := by
      intro on
      have parallel := grazing on
      have slope : q.y - p.y ≠ 0 := by
        intro flat
        rw [heights, flat, mul_zero, add_zero] at falls
        exact lt_irrefl _ falls
      simp only [Displacement.cross, sub_dx, sub_dy, level, sub_self, mul_zero, zero_sub,
        neg_eq_zero, mul_eq_zero, slope, false_or] at parallel
      linarith
    constructor
    · intro east
      by_contra west
      have same := apart (Point.on_of_level atHeight.symm (level.symm.trans atHeight.symm)
        (not_lt.1 west) east)
      exact west (same ▸ east)
    · intro east
      by_contra west
      have same := apart (Point.on_of_level (level.symm.trans atHeight.symm) atHeight.symm
        (not_lt.1 west) east).swap
      exact west (same ▸ east)
  · by_cases atHeight : a.y = m.y
    · have rises : ¬(Point.between p q t).y < m.y := fun falls => passes ⟨atHeight.symm, falls⟩
      simp [rises]
    · simp [Point.dueEast_eq_false atHeight, Point.dueEast_eq_false (level ▸ atHeight)]

theorem steadyAt {e : Edge ℝ}
    (grazing : (Point.between p q t₀).On e → (q - p).cross (e.2 - e.1) = 0) :
    SteadyAt p q t₀ e := by
  obtain ⟨a, b⟩ := e
  rcases lt_trichotomy a.y b.y with up | level | down
  · exact steadyAt_up up grazing
  · exact steadyAt_level level grazing
  · have swapped : SteadyAt p q t₀ (b, a) := steadyAt_up down fun on => by
      have parallel := grazing on.swap
      simp only [Displacement.cross, sub_dx, sub_dy] at parallel ⊢
      linarith
    refine Filter.Eventually.mono swapped fun t met => ?_
    rw [← meetsRay_swap, ← meetsRay_swap (Point.between p q t₀), met]
    congr 2
    exact bne_comm

/-! ## Parity along a segment -/

theorem countP_bne {β : Type} (f g : β → Bool) (l : List β) :
    l.countP (fun e => f e != g e) % 2 = (l.countP f + l.countP g) % 2 := by
  induction l with
  | nil => rfl
  | cons e l ih =>
      simp only [List.countP_cons]
      cases f e <;> cases g e <;> simp <;> omega

variable {polygon : Polygon ℝ}

/-- Near a place that lies on no edge but those along the segment, all is inside or all is
outside. -/
theorem contains_near (framed : polygon.Framed)
    (grazing : ∀ e ∈ polygon.edges, (Point.between p q t₀).On e → (q - p).cross (e.2 - e.1) = 0) :
    ∀ᶠ t in 𝓝 t₀, polygon.contains (Point.between p q t)
      = polygon.contains (Point.between p q t₀) := by
  have steady : ∀ᶠ t in 𝓝 t₀, ∀ e ∈ polygon.edges, meetsRay (Point.between p q t) e
      = (meetsRay (Point.between p q t₀) e !=
        (decide ((Point.between p q t).y < (Point.between p q t₀).y) &&
          ((Point.between p q t₀).dueEast e.2 != (Point.between p q t₀).dueEast e.1))) :=
    (Filter.eventually_all_finite (List.finite_toSet polygon.edges)).2
      fun e edge => steadyAt (grazing e edge)
  filter_upwards [steady] with t met
  rw [Bool.eq_iff_iff, contains_iff_odd framed, contains_iff_odd framed]
  -- the changes are those of a mark around the rings, if there are any
  have even : polygon.edges.countP (fun e =>
      decide ((Point.between p q t).y < (Point.between p q t₀).y) &&
        ((Point.between p q t₀).dueEast e.2 != (Point.between p q t₀).dueEast e.1)) % 2 = 0 := by
    cases decide ((Point.between p q t).y < (Point.between p q t₀).y) with
    | false => simp
    | true =>
        simpa only [Bool.true_and] using polygon.countP_changes_edges (Point.between p q t₀).dueEast
  rw [List.countP_congr fun e edge => Bool.eq_iff_iff.1 (met e edge), countP_bne]
  omega

/-- A segment that lies on no edge between two of its places, but for edges along it, has
both inside or both outside. -/
theorem contains_steady (framed : polygon.Framed) {u v : ℝ}
    (grazing : ∀ t ∈ Set.uIcc u v, ∀ e ∈ polygon.edges, (Point.between p q t).On e →
      (q - p).cross (e.2 - e.1) = 0) :
    polygon.contains (Point.between p q u) = polygon.contains (Point.between p q v) := by
  have continuous : ContinuousOn (fun t => polygon.contains (Point.between p q t))
      (Set.uIcc u v) := fun t inside =>
    (tendsto_nhds_of_eventually_eq
      (contains_near framed (grazing t inside))).mono_left nhdsWithin_le_nhds
  exact Set.ordConnected_uIcc.isPreconnected.constant continuous Set.left_mem_uIcc
    Set.right_mem_uIcc

end Polygon

/-! ## Boundary crossings -/

/-- The edge is parallel to the segment, or turns from it by more than the tolerance. -/
def Posed (p q : Point ℝ) (e : Edge ℝ) : Prop :=
  Scalar.eps * max ((q - p).dot (q - p)) 1 ≤ |(q - p).cross (e.2 - e.1)| ∨
    (q - p).cross (e.2 - e.1) = 0

theorem transversal_pos (d : Displacement ℝ) : 0 < Scalar.eps * max (d.dot d) 1 :=
  mul_pos Scalar.eps_pos (zero_lt_one.trans_le (le_max_right _ _))

/-- A segment that lies on a transversal edge crosses it there. -/
theorem Crossing.mem_positions_of_on {p q : Point ℝ} {e : Edge ℝ} {t : ℝ}
    (transversal : Scalar.eps * max ((q - p).dot (q - p)) 1 ≤ |(q - p).cross (e.2 - e.1)|)
    (start : 0 ≤ t) (stop : t ≤ 1) (on : (Point.between p q t).On e) :
    t ∈ (Crossing.of p q e.1 e.2).positions := by
  obtain ⟨a, b⟩ := e
  obtain ⟨s, ⟨start', stop'⟩, x, y⟩ := on
  have positive := Scalar.eps_pos
  have turn : (q - p).cross (b - a) ≠ 0 :=
    abs_pos.1 ((transversal_pos _).trans_le transversal)
  have first : (a - p).cross (b - a) / (q - p).cross (b - a) = t := by
    rw [div_eq_iff turn]
    simp only [Point.between, Displacement.cross, sub_dx, sub_dy] at x y ⊢
    linear_combination (b.x - a.x) * y - (b.y - a.y) * x
  have second : (a - p).cross (q - p) / (q - p).cross (b - a) = s := by
    rw [div_eq_iff turn]
    simp only [Point.between, Displacement.cross, sub_dx, sub_dy] at x y ⊢
    linear_combination (q.x - p.x) * y - (q.y - p.y) * x
  have inRange : ∀ {r : ℝ}, 0 ≤ r → r ≤ 1 →
      Scalar.within (-Scalar.eps) (1 + Scalar.eps) r = true ∧ Scalar.clamp 0 1 r = r := by
    intro r low high
    refine ⟨(Scalar.within_iff _ _ _).2 ⟨by linarith, by linarith⟩, ?_⟩
    rw [Scalar.clamp, if_neg low.not_gt, if_neg high.not_gt]
  unfold Crossing.of
  simp only [first, second, Scalar.abs_eq, if_neg transversal.not_gt, inRange start stop,
    inRange start' stop', Bool.and_self, if_true, positions, List.mem_singleton]

namespace Box

theorem overlaps_of_covers {a b : Box ℝ} {p : Point ℝ} (first : a.Covers p) (second : b.Covers p) :
    a.overlaps b = true := by
  obtain ⟨⟨left, right⟩, low, high⟩ := first
  obtain ⟨⟨left', right'⟩, low', high'⟩ := second
  have positive := Scalar.eps_pos
  simp only [overlaps, Bool.not_eq_true', Bool.or_eq_false_iff, decide_eq_false_iff_not, not_lt]
  exact ⟨⟨by linarith, by linarith⟩, by linarith, by linarith⟩

theorem Covers.on {box : Box ℝ} {p a b : Point ℝ} (first : box.Covers a) (second : box.Covers b)
    (on : p.On (a, b)) : box.Covers p := by
  obtain ⟨s, ⟨start, stop⟩, x, y⟩ := on
  obtain ⟨⟨left, right⟩, low, high⟩ := ofSegment_covers_between (p := a) (q := b) start stop
  rw [← x] at left right
  rw [← y] at low high
  exact ⟨⟨(le_min first.1.1 second.1.1).trans left, right.trans (max_le first.1.2 second.1.2)⟩,
    (le_min first.2.1 second.2.1).trans low, high.trans (max_le first.2.2 second.2.2)⟩

end Box

/-- Where a segment lies on a transversal edge of an outline, it has a boundary crossing. -/
theorem Polygon.exists_crossing {polygon : Polygon ℝ} (framed : polygon.Framed) {p q : Point ℝ}
    {e : Edge ℝ} (edge : e ∈ polygon.edges)
    (transversal : Scalar.eps * max ((q - p).dot (q - p)) 1 ≤ |(q - p).cross (e.2 - e.1)|)
    {t : ℝ} (start : 0 ≤ t) (stop : t ≤ 1) (on : (Point.between p q t).On e) :
    ∃ k ∈ polygon.boundaryCrossings p q, |t - k| < Scalar.eps := by
  obtain ⟨first, second⟩ := framed.of_mem_edges (a := e.1) (b := e.2) edge
  have meet := Box.overlaps_of_covers (first.on second on)
    (Box.ofSegment_covers_between (p := p) (q := q) start stop)
  have met : t ∈ Sequence.sortOn Scalar.order
      (polygon.edges.flatMap fun e => (Crossing.of p q e.1 e.2).positions) := by
    rw [Sequence.mem_sortOn, List.mem_flatMap]
    exact ⟨e, edge, Crossing.mem_positions_of_on transversal start stop on⟩
  obtain ⟨k, kept, near⟩ := Sequence.exists_same_of_mem Scalar.near
    (fun b => by simp [Scalar.eps_pos]) met
  refine ⟨k, ?_, (Scalar.near_iff t k).1 near⟩
  rw [boundaryCrossings, if_pos meet]
  exact kept

end RoadNoise
