/-
# RoadNoise.Proofs.Facets -- planes over facets

A facet lies in a plane, and of a place that it accepts it tells the elevation of the plane
(`Facet.eq_plane_of_elevation?`).  The facets of a relief fit together: where two of them cover
one place, their planes have one elevation there (`Relief.plane_eq_of_covers`).

That is a matter of the triangles.  A place within one belongs to no other, and a place inside
of a side belongs to the two triangles of that side only, since one of them has it in its midst
a little further on (`Tiles.eq_or_mem_swap`).  A vertex in a triangle is one of its corners,
because the circle is empty (`Tessellates.exists_corner`).
-/
import RoadNoise.Proofs.Ground
import RoadNoise.Proofs.Mirror
import RoadNoise.Proofs.Vertices

set_option autoImplicit false

namespace RoadNoise

open Triangulation Filter Topology

/-! ## Areas along a way -/

theorem doubleArea_between (p q x y : Point ℝ) (t : ℝ) :
    doubleArea p q (Point.between x y t) = (1 - t) * doubleArea p q x + t * doubleArea p q y := by
  simp only [doubleArea, Point.between]
  ring

theorem doubleArea_congr {x y : Point ℝ} (above : x.Above y) (p q : Point ℝ) :
    doubleArea p q x = doubleArea p q y := by
  simp only [doubleArea, above.1, above.2]

theorem continuous_doubleArea_between (p q x y : Point ℝ) :
    Continuous fun t => doubleArea p q (Point.between x y t) := by
  simp only [doubleArea_between]
  fun_prop

/-- A place on the left of a line stays there for a while. -/
theorem eventually_left {p q x : Point ℝ} (left : 0 < doubleArea p q x) (g : Point ℝ) :
    ∀ᶠ t in 𝓝[>] (0 : ℝ), 0 < doubleArea p q (Point.between x g t) := by
  have continuous := continuous_doubleArea_between p q x g
  refine nhdsWithin_le_nhds (continuous.continuousAt.eventually_const_lt ?_)
  simpa using left

/-! ## Facets and their planes -/

namespace Facet

variable (f : Facet ℝ)

/-- Twice the area, positive where the facet runs counter-clockwise. -/
noncomputable def area : ℝ := doubleArea f.a f.b f.c

/-- The place lies in the facet or on its sides. -/
def Covers (x : Point ℝ) : Prop := Spans f.a f.b f.c x

/-- The elevation over a place of the plane that the facet lies in. -/
noncomputable def plane (x : Point ℝ) : ℝ :=
  (doubleArea f.b f.c x * f.a.z + doubleArea f.c f.a x * f.b.z + doubleArea f.a f.b x * f.c.z)
    / f.area

/-- The facet, begun at its second corner. -/
def turn : Facet ℝ := ⟨f.b, f.c, f.a⟩

variable {f} {x y : Point ℝ}

@[simp] theorem area_turn : f.turn.area = f.area := doubleArea_rotate f.a f.b f.c

theorem plane_turn (x : Point ℝ) : f.turn.plane x = f.plane x := by
  rw [plane, plane, area_turn]
  congr 1
  simp only [turn]
  ring

theorem covers_turn : f.turn.Covers x ↔ f.Covers x := by
  simp only [Covers, Spans, turn]
  tauto

/-- A side is the first one of the facet, begun at some corner. -/
theorem exists_turned_of_mem_sides {e : Point ℝ × Point ℝ} (side : e ∈ f.sides) :
    ∃ g : Facet ℝ, e = (g.a, g.b) ∧ g.area = f.area ∧ (∀ x, g.Covers x ↔ f.Covers x) ∧
      ∀ x, g.plane x = f.plane x := by
  simp only [sides, List.mem_cons, List.not_mem_nil, or_false] at side
  rcases side with rfl | rfl | rfl
  · exact ⟨f, rfl, rfl, fun x => Iff.rfl, fun x => rfl⟩
  · exact ⟨f.turn, rfl, area_turn, fun x => covers_turn, plane_turn⟩
  · refine ⟨f.turn.turn, rfl, by simp, fun x => ?_, fun x => ?_⟩
    · rw [covers_turn, covers_turn]
    · rw [plane_turn, plane_turn]

theorem plane_congr (above : x.Above y) : f.plane x = f.plane y := by
  simp only [plane, doubleArea_congr above]

theorem covers_congr (above : x.Above y) : f.Covers x ↔ f.Covers y := by
  simp only [Covers, Spans, doubleArea_congr above]

theorem elevation?_congr (above : x.Above y) : f.elevation? x = f.elevation? y := by
  unfold elevation? balance? doubleArea
  rw [above.1, above.2]

/-- A plane is straight along every way. -/
theorem plane_between (x y : Point ℝ) (t : ℝ) :
    f.plane (Point.between x y t) = (1 - t) * f.plane x + t * f.plane y := by
  simp only [plane, doubleArea_between]
  ring

theorem covers_between (first : f.Covers x) (second : f.Covers y) {t : ℝ} (start : 0 ≤ t)
    (stop : t ≤ 1) : f.Covers (Point.between x y t) := by
  simp only [Covers, Spans, doubleArea_between] at *
  have rest : 0 ≤ 1 - t := by linarith
  exact ⟨add_nonneg (mul_nonneg rest first.1) (mul_nonneg start second.1),
    add_nonneg (mul_nonneg rest first.2.1) (mul_nonneg start second.2.1),
    add_nonneg (mul_nonneg rest first.2.2) (mul_nonneg start second.2.2)⟩

theorem plane_a (solid : f.area ≠ 0) : f.plane f.a = f.a.z := by
  have around : doubleArea f.b f.c f.a = f.area := doubleArea_rotate f.a f.b f.c
  rw [plane, around, doubleArea_right, doubleArea_left]
  field_simp
  ring

theorem plane_b (solid : f.area ≠ 0) : f.plane f.b = f.b.z := by
  rw [← plane_turn, show f.b = f.turn.a from rfl, plane_a (by rwa [area_turn])]

theorem plane_c (solid : f.area ≠ 0) : f.plane f.c = f.c.z := by
  rw [← plane_turn, show f.c = f.turn.b from rfl, plane_b (by rwa [area_turn])]

/-- Over a side the plane runs straight from corner to corner. -/
theorem plane_of_mem_sides (solid : f.area ≠ 0) {e : Point ℝ × Point ℝ} (side : e ∈ f.sides)
    (k : ℝ) : f.plane (Point.between e.1 e.2 k) = e.1.z + k * (e.2.z - e.1.z) := by
  obtain ⟨g, rfl, area, -, plane⟩ := exists_turned_of_mem_sides side
  have solid : g.area ≠ 0 := by rwa [area]
  rw [← plane, plane_between, plane_a solid, plane_b solid]
  ring

theorem covers_of_mem_sides (turned : 0 < f.area) {e : Point ℝ × Point ℝ} (side : e ∈ f.sides)
    {k : ℝ} (start : 0 ≤ k) (stop : k ≤ 1) : f.Covers (Point.between e.1 e.2 k) := by
  obtain ⟨g, rfl, area, covers, -⟩ := exists_turned_of_mem_sides side
  have around : doubleArea g.b g.c g.a = g.area := doubleArea_rotate g.a g.b g.c
  have around' : doubleArea g.c g.a g.b = g.area := (doubleArea_rotate g.c g.a g.b).symm
  rw [← area] at turned
  refine (covers _).1 (covers_between ?_ ?_ start stop)
  · simp [Covers, Spans, around, turned.le]
  · simp [Covers, Spans, around', turned.le]

/-- What a facet tells of a place is the elevation of its plane. -/
theorem eq_plane_of_elevation? {z : ℝ} (known : f.elevation? x = some z) :
    z = f.plane x ∧ f.area ≠ 0 ∧ -Scalar.eps ≤ doubleArea f.b f.c x / f.area ∧
      -Scalar.eps ≤ doubleArea f.c f.a x / f.area ∧
      -Scalar.eps ≤ doubleArea f.a f.b x / f.area := by
  obtain ⟨wa, wb, wc, balanced, ⟨lowA, lowB, lowC⟩, rfl⟩ := elevation?_eq_some_iff.1 known
  obtain ⟨wide, weights⟩ := balance?_eq_some_iff.1 balanced
  obtain ⟨rfl, rfl, rfl⟩ : wa = _ ∧ wb = _ ∧ wc = _ := by simpa using weights
  have solid : f.area ≠ 0 := by
    intro flat
    have wide : Scalar.eps ≤ |f.area| := wide
    rw [flat, abs_zero] at wide
    linarith [Scalar.eps_pos]
  have sum := doubleArea_sum f.a f.b f.c x
  have atA : doubleArea x f.b f.c = doubleArea f.b f.c x := (doubleArea_rotate x f.b f.c).symm
  have atB : doubleArea f.a x f.c = doubleArea f.c f.a x := doubleArea_rotate f.c f.a x
  have whole : doubleArea f.a f.b f.c = f.area := rfl
  have third : 1 - doubleArea x f.b f.c / doubleArea f.a f.b f.c
      - doubleArea f.a x f.c / doubleArea f.a f.b f.c = doubleArea f.a f.b x / f.area := by
    rw [atA, atB, whole]
    field_simp
    linarith
  rw [third] at lowC ⊢
  rw [atA, whole] at lowA ⊢
  rw [atB] at lowB ⊢
  rw [whole] at lowB
  refine ⟨?_, solid, lowA, lowB, lowC⟩
  rw [plane]
  ring

end Facet

/-! ## Triangles around a place -/

namespace Triangulation

/-- The place lies on the side, between its ends. -/
def Inside (s : Side ℝ) (x : Point ℝ) : Prop :=
  ∃ k, (0 < k ∧ k < 1) ∧ x.Above (Point.between s.1.point s.2.point k)

theorem Inside.swap {s : Side ℝ} {x : Point ℝ} (inside : Inside s x) : Inside s.swap x := by
  obtain ⟨k, ⟨start, stop⟩, aboveX, aboveY⟩ := inside
  refine ⟨1 - k, ⟨by linarith, by linarith⟩, ?_, ?_⟩
  · simp only [Point.between, Prod.fst_swap, Prod.snd_swap] at *
    linarith
  · simp only [Point.between, Prod.fst_swap, Prod.snd_swap] at *
    linarith

/-- A place of a triangle on the line of its first side is on the side. -/
theorem exists_above_between {a b c x : Point ℝ} (turned : 0 < doubleArea a b c)
    (spans : Spans a b c x) (onLine : doubleArea a b x = 0) :
    ∃ k, (0 ≤ k ∧ k ≤ 1) ∧ x.Above (Point.between a b k) := by
  have sum := doubleArea_sum a b c x
  have share : doubleArea c a x / doubleArea a b c * doubleArea a b c = doubleArea c a x :=
    div_mul_cancel₀ _ turned.ne'
  refine ⟨doubleArea c a x / doubleArea a b c, ⟨div_nonneg spans.2.2 turned.le,
    (div_le_one turned).2 (by linarith [spans.2.1])⟩, ?_, ?_⟩
  · refine mul_right_cancel₀ turned.ne' ?_
    simp only [Point.between, doubleArea] at *
    linear_combination (c.x - a.x) * onLine - (b.x - a.x) * share
  · refine mul_right_cancel₀ turned.ne' ?_
    simp only [Point.between, doubleArea] at *
    linear_combination (c.y - a.y) * onLine - (b.y - a.y) * share

/-- A place of a triangle lies within it, at a corner or inside of a side. -/
theorem Triangle.Spans.cases {t : Triangle ℝ} {x : Point ℝ} (turned : 0 < t.area)
    (spans : t.Spans x) : t.Within x ∨ (∃ c ∈ t.corners, x.Above c.point) ∨
      ∃ s ∈ t.sides, Inside s x := by
  have onSide : ∀ s ∈ t.sides, ∀ w, 0 < doubleArea s.1.point s.2.point w →
      Triangulation.Spans s.1.point s.2.point w x → (s.1 ∈ t.corners ∧ s.2 ∈ t.corners) →
      doubleArea s.1.point s.2.point x = 0 →
      (∃ c ∈ t.corners, x.Above c.point) ∨ ∃ s ∈ t.sides, Inside s x := by
    intro s side w turned spans ⟨first, second⟩ onLine
    obtain ⟨k, ⟨start, stop⟩, above⟩ := exists_above_between turned spans onLine
    rcases start.eq_or_lt with rfl | start
    · rw [Point.between_zero] at above
      exact .inl ⟨s.1, first, above⟩
    · rcases stop.eq_or_lt with rfl | stop
      · rw [Point.between_one] at above
        exact .inl ⟨s.2, second, above⟩
      · exact .inr ⟨s, side, k, ⟨start, stop⟩, above⟩
  have turned' : 0 < doubleArea t.b.point t.c.point t.a.point := by rwa [doubleArea_rotate]
  have turned'' : 0 < doubleArea t.c.point t.a.point t.b.point := by rwa [doubleArea_rotate]
  obtain ⟨left, opposite, right⟩ := spans
  rcases left.eq_or_lt with onLine | left
  · exact .inr (onSide (t.a, t.b) (by simp [sides]) _ turned ⟨left, opposite, right⟩ (by simp)
      onLine.symm)
  · rcases opposite.eq_or_lt with onLine | opposite
    · exact .inr (onSide (t.b, t.c) (by simp [sides]) _ turned' ⟨opposite, right, left.le⟩ (by simp)
        onLine.symm)
    · rcases right.eq_or_lt with onLine | right
      · exact .inr (onSide (t.c, t.a) (by simp [sides]) _ turned'' ⟨right, left.le, opposite.le⟩
          (by simp) onLine.symm)
      · exact .inl ⟨left, opposite, right⟩

variable {a b c x g : Point ℝ}

/-- The first part of a way into a triangle lies within it. -/
theorem within_between (spans : Spans a b c x) (within : Within a b c g) {t : ℝ} (start : 0 < t)
    (stop : t ≤ 1) : Within a b c (Point.between x g t) := by
  have rest : 0 ≤ 1 - t := by linarith
  simp only [Within, doubleArea_between]
  exact ⟨add_pos_of_nonneg_of_pos (mul_nonneg rest spans.1) (mul_pos start within.1),
    add_pos_of_nonneg_of_pos (mul_nonneg rest spans.2.1) (mul_pos start within.2.1),
    add_pos_of_nonneg_of_pos (mul_nonneg rest spans.2.2) (mul_pos start within.2.2)⟩

theorem eventually_within (within : Within a b c x) (g : Point ℝ) :
    ∀ᶠ t in 𝓝[>] (0 : ℝ), Within a b c (Point.between x g t) :=
  (eventually_left within.1 g).and
    ((eventually_left within.2.1 g).and (eventually_left within.2.2 g))

theorem eventually_step : ∀ᶠ t in 𝓝[>] (0 : ℝ), 0 < t ∧ t ≤ 1 :=
  Ioc_mem_nhdsGT one_pos

/-- A way from inside of a side to the left of it begins in the triangle on the left. -/
theorem eventually_within_of_inside {t : Triangle ℝ} (turned : 0 < t.area) {s : Side ℝ}
    (side : s ∈ t.sides) (inside : Inside s x) (left : 0 < doubleArea s.1.point s.2.point g) :
    ∀ᶠ k in 𝓝[>] (0 : ℝ), t.Within (Point.between x g k) := by
  obtain ⟨w, -, -, area, within⟩ := Triangle.exists_apex side
  obtain ⟨k, ⟨start, stop⟩, above⟩ := inside
  rw [← area] at turned
  have first : doubleArea s.2.point w.point s.1.point = doubleArea s.1.point s.2.point w.point :=
    doubleArea_rotate _ _ _
  have second : doubleArea w.point s.1.point s.2.point = doubleArea s.1.point s.2.point w.point :=
    (doubleArea_rotate _ _ _).symm
  have onLine : doubleArea s.1.point s.2.point x = 0 := by
    rw [doubleArea_congr above, doubleArea_between, doubleArea_left, doubleArea_right]
    ring
  have far : 0 < doubleArea s.2.point w.point x := by
    rw [doubleArea_congr above, doubleArea_between, first, doubleArea_left]
    nlinarith
  have far' : 0 < doubleArea w.point s.1.point x := by
    rw [doubleArea_congr above, doubleArea_between, second, doubleArea_right]
    nlinarith
  filter_upwards [eventually_step, eventually_left far g, eventually_left far' g] with k step
    stays stays'
  refine (within _).2 ⟨?_, stays, stays'⟩
  rw [doubleArea_between, onLine]
  nlinarith [step.1]

namespace Tiles

variable {whole : Triangle ℝ} {ts : List (Triangle ℝ)} {t u : Triangle ℝ}

theorem eq_of_within (tiled : Tiles whole ts) (turned : 0 < whole.area) (first : t ∈ ts)
    (second : u ∈ ts) (within : t.Within x) (within' : u.Within x) : t = u := by
  by_contra other
  have symm : Std.Symm fun t u : Triangle ℝ => ¬(t.Within x ∧ u.Within x) :=
    ⟨fun t u apart both => apart ⟨both.2, both.1⟩⟩
  exact List.Pairwise.forall (tiled.pairwise turned x) first second other ⟨within, within'⟩

/-- A place within a triangle is in no other. -/
theorem eq_of_spans (tiled : Tiles whole ts) (turned : 0 < whole.area) (first : t ∈ ts)
    (second : u ∈ ts) (within : t.Within x) (spans : u.Spans x) : u = t := by
  obtain ⟨g, withinU⟩ := exists_within (tiled.turned u second)
  obtain ⟨k, stays, start, stop⟩ :=
    ((eventually_within within (spot g)).and eventually_step).exists
  exact tiled.eq_of_within turned second first (within_between spans withinU start stop) stays

/-- A place inside of a side is in the triangles of that side only. -/
theorem eq_or_mem_swap (tiled : Tiles whole ts) (turned : 0 < whole.area) (first : t ∈ ts)
    (second : u ∈ ts) {s : Side ℝ} (side : s ∈ t.sides) (inner : s ∉ whole.sides)
    (inside : Inside s x) (spans : u.Spans x) : u = t ∨ s.swap ∈ u.sides := by
  obtain ⟨v, beyond, reverse⟩ :=
    List.mem_flatMap.1 (tiled.mem_swap (List.mem_flatMap.2 ⟨t, first, side⟩) inner)
  -- a place within `u` that is off the line of the side
  obtain ⟨w, -, -, area, -⟩ := Triangle.exists_apex side
  have apart := planar_ne_of_turned ((tiled.turned t first).trans_eq area.symm)
  obtain ⟨g, off, withinU⟩ := (dense_off_line apart).exists_mem_open
    (isOpen_within u.a.point u.b.point u.c.point) (exists_within (tiled.turned u second))
  have enters : ∀ k, 0 < k ∧ k ≤ 1 → u.Within (Point.between x (spot g) k) := fun k step =>
    within_between spans withinU step.1 step.2
  have off : doubleArea s.1.point s.2.point (spot g) ≠ 0 := off
  rcases lt_or_gt_of_ne off with right | left
  · have left : 0 < doubleArea s.2.point s.1.point (spot g) := by
      rw [doubleArea_swap]
      exact neg_pos.2 right
    obtain ⟨k, step, stays⟩ := (eventually_step.and
      (eventually_within_of_inside (tiled.turned v beyond) reverse inside.swap left)).exists
    right
    rwa [tiled.eq_of_within turned second beyond (enters k step) stays]
  · obtain ⟨k, step, stays⟩ := (eventually_step.and
      (eventually_within_of_inside (tiled.turned t first) side inside left)).exists
    exact .inl (tiled.eq_of_within turned second first (enters k step) stays)

end Tiles

/-- A known corner that lies in a triangle is at one of its corners. -/
theorem Tessellates.exists_corner {whole : Triangle ℝ} {known : List (Corner ℝ)}
    {ts : List (Triangle ℝ)} (tess : Tessellates whole known ts) {t : Triangle ℝ}
    (member : t ∈ ts) {v : Corner ℝ} (isKnown : v ∈ known) (spans : t.Spans v.point) :
    ∃ c ∈ t.corners, v.point.Above c.point := by
  have turned := tess.turned t member
  -- against the circle of radius zero around the corner
  let centre : Circle ℝ := ⟨v.point.x, v.point.y, 0⟩
  have distance : ∀ p, centre.power p
      = (v.point.x - p.x) * (v.point.x - p.x) + (v.point.y - p.y) * (v.point.y - p.y) := by
    intro p
    simp [centre, Circle.power, Scalar.sq]
  have nonneg : ∀ p, 0 ≤ centre.power p := by
    intro p
    rw [distance]
    exact add_nonneg (mul_self_nonneg _) (mul_self_nonneg _)
  have zero : ∀ p, centre.power p = 0 → v.point.Above p := by
    intro p none
    rw [distance] at none
    constructor <;> nlinarith [mul_self_nonneg (v.point.x - p.x), mul_self_nonneg (v.point.y - p.y)]
  have balance := power_sub_mul centre v.point (power_corners (tess.circles t member))
  have here : centre.power v.point = 0 := by simp [distance]
  have out := mul_nonneg (tess.empty t member v isKnown) turned.le
  have sum := doubleArea_sum t.a.point t.b.point t.c.point v.point
  obtain ⟨left, opposite, right⟩ := spans
  have first := mul_nonneg (nonneg t.a.point) opposite
  have second := mul_nonneg (nonneg t.b.point) right
  have third := mul_nonneg (nonneg t.c.point) left
  rw [here] at balance
  have area : doubleArea t.a.point t.b.point t.c.point = t.area := rfl
  rw [area] at sum balance
  have none : centre.power t.a.point * doubleArea t.b.point t.c.point v.point = 0 ∧
      centre.power t.b.point * doubleArea t.c.point t.a.point v.point = 0 ∧
      centre.power t.c.point * doubleArea t.a.point t.b.point v.point = 0 := by
    refine ⟨?_, ?_, ?_⟩ <;> linarith
  by_contra apart
  push Not at apart
  have weightless : ∀ c ∈ t.corners, ∀ w, centre.power c.point * w = 0 → w = 0 := by
    intro c corner w product
    exact (mul_eq_zero.1 product).resolve_left fun power => apart c corner (zero _ power)
  have noA := weightless t.a (by simp) _ none.1
  have noB := weightless t.b (by simp) _ none.2.1
  have noC := weightless t.c (by simp) _ none.2.2
  rw [noA, noB, noC] at sum
  linarith

def Triangle.facet (t : Triangle ℝ) : Facet ℝ := ⟨t.a.point, t.b.point, t.c.point⟩

theorem Triangle.plane_of_above {t : Triangle ℝ} (turned : 0 < t.area) {c : Corner ℝ}
    (corner : c ∈ t.corners) {x : Point ℝ} (above : x.Above c.point) :
    t.facet.plane x = c.point.z := by
  rw [Facet.plane_congr above]
  rw [mem_corners] at corner
  rcases corner with rfl | rfl | rfl
  · exact Facet.plane_a (f := t.facet) turned.ne'
  · exact Facet.plane_b (f := t.facet) turned.ne'
  · exact Facet.plane_c (f := t.facet) turned.ne'

theorem Triangle.mem_sides_facet {t : Triangle ℝ} {s : Side ℝ} (side : s ∈ t.sides) :
    (s.1.point, s.2.point) ∈ t.facet.sides := by
  simp only [sides, List.mem_cons, List.not_mem_nil, or_false] at side
  rcases side with rfl | rfl | rfl <;> simp [Facet.sides, facet]

end Triangulation

section Points

variable {points : List (Point ℝ)} {whole : Triangle ℝ} {t u : Triangle ℝ} {x : Point ℝ}

/-- A side between two of the points is no side of the outermost triangle. -/
theorem not_mem_sides_outermost (start : outermost points = some whole)
    (known : ∀ c ∈ t.corners, c ∈ numbered points) {s : Side ℝ} (side : s ∈ t.sides) :
    s ∉ whole.sides := by
  intro outer
  obtain ⟨-, -, ⟨inner, -⟩, -⟩ := Triangle.exists_apex side
  obtain ⟨-, -, ⟨far, -⟩, -⟩ := Triangle.exists_apex outer
  have below := lt_of_mem_numbered (known _ inner)
  obtain ⟨box, -, made⟩ := Option.bind_eq_some_iff.1 start
  obtain ⟨a, b, c, -⟩ := corners_outermost? made
  rw [Triangle.mem_corners, a, b, c] at far
  rcases far with same | same | same <;> rw [same] at below <;> simp at below

/-- Triangles over a place agree about its elevation. -/
theorem plane_eq_of_spans (decided : Decided points) (start : outermost points = some whole)
    (distinct : ∀ p ∈ points, ∀ q ∈ points, p.Above q → p = q) (first : t ∈ inserted points)
    (second : u ∈ inserted points) (known : ∀ c ∈ t.corners, c ∈ numbered points)
    (known' : ∀ c ∈ u.corners, c ∈ numbered points) (spans : t.Spans x) (spans' : u.Spans x) :
    t.facet.plane x = u.facet.plane x := by
  have tess := tessellates decided start
  obtain ⟨box, -, made⟩ := Option.bind_eq_some_iff.1 start
  have turned := turned_outermost? made
  rcases spans.cases (tess.turned t first) with within | ⟨c, corner, above⟩ | ⟨s, side, inside⟩
  · rw [tess.eq_of_spans turned first second within spans']
  · have here : u.Spans c.point := (Facet.covers_congr (f := u.facet) above).1 spans'
    obtain ⟨d, corner', above'⟩ := tess.exists_corner second (by simp [known c corner]) here
    have same := distinct _ (point_mem_of_mem_numbered (known c corner)) _
      (point_mem_of_mem_numbered (known' d corner')) above'
    rw [Triangle.plane_of_above (tess.turned t first) corner above,
      Triangle.plane_of_above (tess.turned u second) corner' (above.trans above'), same]
  · have inner := not_mem_sides_outermost start known side
    rcases tess.eq_or_mem_swap turned first second side inner inside spans' with rfl | reverse
    · rfl
    · obtain ⟨k, -, above⟩ := inside
      have ends : x.Above (Point.between s.2.point s.1.point (1 - k)) := by
        refine above.trans ⟨?_, ?_⟩ <;> simp only [Point.between] <;> ring
      have solid : t.facet.area ≠ 0 := (tess.turned t first).ne'
      have solid' : u.facet.area ≠ 0 := (tess.turned u second).ne'
      have first := Facet.plane_of_mem_sides solid (Triangle.mem_sides_facet side) k
      have second :=
        Facet.plane_of_mem_sides solid' (Triangle.mem_sides_facet reverse) (1 - k)
      simp only [Prod.fst_swap, Prod.snd_swap] at second
      rw [Facet.plane_congr above, first, Facet.plane_congr ends, second]
      ring

end Points

/-! ## Facets of a relief -/

namespace Relief

variable {points : List (Point ℝ)} {r : Relief ℝ}

/-- Vertices are told apart by their planar positions. -/
theorem eq_of_above {v w : Point ℝ} (first : v ∈ verticesOf points)
    (second : w ∈ verticesOf points) (above : v.Above w) : v = w := by
  have finite : ∀ p ∈ points, p.isFinite = true := by simp [Point.isFinite]
  have same : ∀ p, v.order p = w.order p := by
    intro p
    rw [Point.order, Point.order, above.1, above.2]
  have found := find?_of_mem_verticesOf finite first
  simp only [same] at found
  exact Option.some.inj (found.symm.trans (find?_of_mem_verticesOf finite second))

theorem three_le_of_delaunay? {vertices : List (Point ℝ)} {places : List (Nat × Nat × Nat)}
    (found : delaunay? vertices = some places) : 3 ≤ vertices.length := by
  by_contra few
  simp [delaunay?, not_le.1 few] at found

/-- A facet is made of a triangle between three of the vertices. -/
theorem exists_triangle (made : ofPoints? points = some r) (decided : Decided (verticesOf points))
    {f : Facet ℝ} (member : f ∈ r.facets) : ∃ t ∈ inserted (verticesOf points),
      (∀ c ∈ t.corners, c ∈ numbered (verticesOf points)) ∧ t.facet = f := by
  obtain ⟨vertices, found, facets, -⟩ := ofPoints?_eq_some made
  rw [vertices] at found facets
  rw [facets, List.mem_toArray] at member
  obtain ⟨places, entry, corners⟩ := List.mem_filterMap.1 member
  obtain ⟨first, second, third⟩ := facetOf?_eq_some_iff.1 corners
  obtain ⟨t, member, known, atA, atB, atC⟩ := exists_of_mem_delaunay? (three_le_of_delaunay? found)
    decided found entry first second third
  refine ⟨t, member, known, ?_⟩
  rw [Triangle.facet, atA, atB, atC]

theorem corners_mem_vertices (made : ofPoints? points = some r)
    (decided : Decided (verticesOf points)) {f : Facet ℝ} (member : f ∈ r.facets) :
    f.a ∈ r.vertices ∧ f.b ∈ r.vertices ∧ f.c ∈ r.vertices := by
  obtain ⟨t, -, known, rfl⟩ := exists_triangle made decided member
  rw [(ofPoints?_eq_some made).1]
  obtain ⟨first, second, third⟩ := Triangle.forall_corners.1 known
  exact ⟨point_mem_of_mem_numbered first, point_mem_of_mem_numbered second,
    point_mem_of_mem_numbered third⟩

/-- Facets run counter-clockwise and are no flatter than the tolerance allows. -/
theorem solid_of_mem_facets (made : ofPoints? points = some r)
    (decided : Decided (verticesOf points)) {f : Facet ℝ} (member : f ∈ r.facets) : Scalar.eps < f.area := by
  obtain ⟨-, found, -⟩ := ofPoints?_eq_some made
  rw [(ofPoints?_eq_some made).1] at found
  obtain ⟨whole, start⟩ := exists_outermost (three_le_of_delaunay? found)
  obtain ⟨t, inner, -, rfl⟩ := exists_triangle made decided member
  exact solid_of_mem_inserted decided start inner

/-- Where two facets cover one place, their planes have one elevation there. -/
theorem plane_eq_of_covers (made : ofPoints? points = some r)
    (decided : Decided (verticesOf points)) {f g : Facet ℝ} (first : f ∈ r.facets)
    (second : g ∈ r.facets) {x : Point ℝ} (covers : f.Covers x) (covers' : g.Covers x) :
    f.plane x = g.plane x := by
  obtain ⟨-, found, -⟩ := ofPoints?_eq_some made
  rw [(ofPoints?_eq_some made).1] at found
  obtain ⟨whole, start⟩ := exists_outermost (three_le_of_delaunay? found)
  obtain ⟨t, memberT, known, rfl⟩ := exists_triangle made decided first
  obtain ⟨u, memberU, known', rfl⟩ := exists_triangle made decided second
  exact plane_eq_of_spans decided start (fun p vertexP q vertexQ => eq_of_above vertexP vertexQ)
    memberT memberU known known' covers covers'

end Relief

end RoadNoise
