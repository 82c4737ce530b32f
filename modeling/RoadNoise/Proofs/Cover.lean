/-
# RoadNoise.Proofs.Cover -- what the triangles cover

The triangles that remain cover the convex hull of their points as long as the corners
of the outermost triangle keep out of the circles that are empty of points, and only
then: where such a circle has a corner in it, the place under it belongs to a triangle
with that corner, and nothing is left there (`exists_delaunay?_covers`,
`power_nonneg_of_covers`).  Two triangles around one place whose circles are empty of
each other's corners have the same circle (`power_eq_zero_of_within`); that settles
which triangle a place belongs to.
-/
import RoadNoise.Proofs.Delaunay
import RoadNoise.Proofs.Hull

set_option autoImplicit false

namespace RoadNoise

open Triangulation

/-- Three of the points are on no line. -/
def Spread (points : List (Point ℝ)) : Prop :=
  ∃ a ∈ points, ∃ b ∈ points, ∃ c ∈ points, doubleArea a b c ≠ 0

/-- A triangle, given by the places of its corners in the list, has the place. -/
def Covered (points : List (Point ℝ)) (places : List (Nat × Nat × Nat)) (x : ℝ × ℝ) : Prop :=
  ∃ t ∈ places, ∃ a b c, points[t.1]? = some a ∧ points[t.2.1]? = some b ∧
    points[t.2.2]? = some c ∧ x ∈ convexHull ℝ {a.planar, b.planar, c.planar}

/-- The circle goes through three of the points and has none in it. -/
def EmptyCircle (points : List (Point ℝ)) (o : Circle ℝ) : Prop :=
  (∃ a ∈ points, ∃ b ∈ points, ∃ c ∈ points, circle? a b c = some o) ∧
    ∀ p ∈ points, 0 ≤ o.power p

/-! ## Two circles around a place -/

/-- The weighted powers of the corners in another circle. -/
theorem power_sub_mul {a b c : Point ℝ} {o : Circle ℝ} (o' : Circle ℝ) (x : Point ℝ)
    (corners : o.power a = 0 ∧ o.power b = 0 ∧ o.power c = 0) :
    (o'.power x - o.power x) * doubleArea a b c = o'.power a * doubleArea b c x
      + o'.power b * doubleArea c a x + o'.power c * doubleArea a b x := by
  have balance := o.power_balance o' a b c x
  rw [corners.1, corners.2.1, corners.2.2] at balance
  have first : doubleArea x b c = doubleArea b c x := (doubleArea_rotate x b c).symm
  have second : doubleArea a x c = doubleArea c a x := doubleArea_rotate c a x
  rw [first, second] at balance
  linarith

theorem power_eq_zero_of_within {a b c d e f x : Point ℝ} {o o' : Circle ℝ}
    (corners : o.power a = 0 ∧ o.power b = 0 ∧ o.power c = 0)
    (corners' : o'.power d = 0 ∧ o'.power e = 0 ∧ o'.power f = 0)
    (within : Within a b c x) (within' : Within d e f x)
    (out : 0 ≤ o'.power a ∧ 0 ≤ o'.power b ∧ 0 ≤ o'.power c)
    (out' : 0 ≤ o.power d ∧ 0 ≤ o.power e ∧ 0 ≤ o.power f) :
    o.power d = 0 ∧ o.power e = 0 ∧ o.power f = 0 := by
  have balance := power_sub_mul o' x corners
  have balance' := power_sub_mul o x corners'
  have less : 0 ≤ (o'.power x - o.power x) * doubleArea a b c := by
    rw [balance]
    exact add_nonneg (add_nonneg (mul_nonneg out.1 within.2.1.le)
      (mul_nonneg out.2.1 within.2.2.le)) (mul_nonneg out.2.2 within.1.le)
  have lower := nonneg_of_mul_nonneg_left less (turned_of_spans within)
  have turned := turned_of_spans within'
  have first := mul_nonneg out'.1 within'.2.1.le
  have second := mul_nonneg out'.2.1 within'.2.2.le
  have third := mul_nonneg out'.2.2 within'.1.le
  -- each circle has the lesser power at the place, so every weighted corner is on it
  have none : (o.power x - o'.power x) * doubleArea d e f ≤ 0 :=
    mul_nonpos_of_nonpos_of_nonneg (by linarith) turned.le
  refine ⟨?_, ?_, ?_⟩
  · exact (mul_eq_zero.1 (by linarith : o.power d * doubleArea e f x = 0)).resolve_right
      within'.2.1.ne'
  · exact (mul_eq_zero.1 (by linarith : o.power e * doubleArea f d x = 0)).resolve_right
      within'.2.2.ne'
  · exact (mul_eq_zero.1 (by linarith : o.power f * doubleArea d e x = 0)).resolve_right
      within'.1.ne'

section Points

variable {points : List (Point ℝ)} {whole : Triangle ℝ}

theorem exists_numbered_of_mem {p : Point ℝ} (member : p ∈ points) :
    ∃ c ∈ numbered points, c.point = p := by
  obtain ⟨i, entry⟩ := List.mem_iff_getElem?.1 member
  exact ⟨⟨i, p⟩, mem_numbered.2 entry, rfl⟩

theorem covers_of_mem_hull {box : Box ℝ} (around : Box.around? points = some box) {x : ℝ × ℝ}
    (inside : x ∈ hull points) : box.Covers (spot x) := by
  have convex : Convex ℝ (Set.Icc box.xmin box.xmax ×ˢ Set.Icc box.ymin box.ymax) :=
    (convex_Icc _ _).prod (convex_Icc _ _)
  refine convexHull_min ?_ convex inside
  rintro y ⟨p, member, rfl⟩
  exact Box.covers_of_around? around member

/-- Three points off a line are three, and no place is all of them. -/
theorem several_of_spread (spread : Spread points) :
    3 ≤ points.length ∧ ∀ p ∈ points, ∃ q ∈ points, p.planar ≠ q.planar := by
  obtain ⟨a, first, b, second, c, third, solid⟩ := spread
  constructor
  · have distinct : [a, b, c].Nodup := by
      have apart : a ≠ b ∧ a ≠ c ∧ b ≠ c := by
        refine ⟨?_, ?_, ?_⟩ <;> rintro rfl <;> simp at solid
      simpa using ⟨⟨apart.1, apart.2.1⟩, apart.2.2⟩
    have sub : [a, b, c] ⊆ points := by
      simp [first, second, third]
    exact (List.subperm_of_subset distinct sub).length_le
  · intro p _
    by_contra none
    push Not at none
    refine solid ?_
    rw [← doubleArea_planar, ← none c third, none a first, doubleArea_planar, doubleArea_left]

theorem exists_turned (spread : Spread points) :
    ∃ a ∈ points, ∃ b ∈ points, ∃ c ∈ points, 0 < doubleArea a b c := by
  obtain ⟨a, first, b, second, c, third, solid⟩ := spread
  rcases turned_or_turned_swap solid with left | right
  · exact ⟨a, first, b, second, c, third, left⟩
  · exact ⟨b, second, a, first, c, third, right⟩

theorem exists_circle?_of_decided (decided : Decided points) {a b c : Point ℝ} (first : a ∈ points)
    (second : b ∈ points) (third : c ∈ points) (solid : doubleArea a b c ≠ 0) :
    ∃ o, circle? a b c = some o := by
  rcases decided.area a (List.mem_append_left _ first) b (List.mem_append_left _ second) c
    (List.mem_append_left _ third) with flat | wide
  · exact absurd flat solid
  · exact exists_circle? wide

/-! ## Places and triangles -/

theorem empty_of_mem_inserted (decided : Decided points) (start : outermost points = some whole)
    {t : Triangle ℝ} (member : t ∈ inserted points) :
    (∀ p ∈ points, 0 ≤ t.circle.power p) ∧ ∀ s ∈ outerCorners points, 0 ≤ t.circle.power s := by
  have tess := tessellates decided start
  constructor
  · intro p point
    obtain ⟨c, known, rfl⟩ := exists_numbered_of_mem point
    exact tess.empty t member c (by simp [known])
  · intro s corner
    rw [outerCorners, start] at corner
    obtain ⟨c, outer, rfl⟩ := List.mem_map.1 corner
    exact tess.empty t member c (by simp [outer])

/-- A place on no line lies within one of the triangles that the insertions leave. -/
theorem exists_within_inserted (decided : Decided points) (start : outermost points = some whole)
    {x : ℝ × ℝ} (inside : x ∈ hull points)
    (generic : Generic (points ++ outerCorners points) x) :
    ∃ t ∈ inserted points, t.Within (spot x) := by
  have tess := tessellates decided start
  obtain ⟨box, around, made⟩ := Option.bind_eq_some_iff.1 start
  obtain ⟨t, member, spans⟩ := tess.exists_spans (turned_outermost? made)
    (within_outermost? made (covers_of_mem_hull around inside))
  obtain ⟨first, second, third⟩ :=
    Triangle.forall_corners.1 (point_mem_of_mem_inserted decided start member)
  exact ⟨t, member, within_of_spans first second third (tess.turned t member) generic spans⟩

/-- Where all empty circles are clear of the outermost triangle, so are the triangles over
the hull. -/
theorem numbered_of_within (decided : Decided points) (start : outermost points = some whole)
    (spread : Spread points)
    (clear : ∀ o, EmptyCircle points o → ∀ s ∈ outerCorners points, 0 < o.power s)
    {x : ℝ × ℝ} (inside : x ∈ hull points) (generic : Generic points x) {t : Triangle ℝ}
    (member : t ∈ inserted points) (within : t.Within (spot x)) :
    ∀ c ∈ t.corners, c ∈ numbered points := by
  have tess := tessellates decided start
  obtain ⟨a, first, b, second, c, third, o, through, around, empty⟩ := exists_empty_of_mem_hull
    (fun _ first _ second _ third => exists_circle?_of_decided decided first second third)
    (several_of_spread spread).2 generic inside
  have outside := clear o ⟨⟨a, first, b, second, c, third, through⟩, empty⟩
  have out := (empty_of_mem_inserted decided start member).1
  have origin : ∀ v ∈ t.corners, v ∈ numbered points ∨ 0 < o.power v.point := by
    intro v corner
    rcases List.mem_append.1 (tess.corners t member v corner) with known | outer
    · exact .inl (List.mem_reverse.1 known)
    · refine .inr (outside v.point ?_)
      rw [outerCorners, start]
      exact List.mem_map_of_mem outer
  have nonneg : ∀ v ∈ t.corners, 0 ≤ o.power v.point := by
    intro v corner
    rcases origin v corner with known | far
    · exact empty _ (point_mem_of_mem_numbered known)
    · exact far.le
  have zero := power_eq_zero_of_within (power_corners through)
    (power_corners (tess.circles t member)) around within
    ⟨out a first, out b second, out c third⟩ (Triangle.forall_corners.1 nonneg)
  intro v corner
  refine (origin v corner).resolve_right (not_lt.2 (le_of_eq ?_))
  exact (Triangle.forall_corners (P := fun v => o.power v.point = 0)).2 zero v corner

theorem isClosed_spans (t : Triangle ℝ) : IsClosed {x | t.Spans (spot x)} :=
  (isClosed_le continuous_const (continuous_doubleArea _ _)).inter
    ((isClosed_le continuous_const (continuous_doubleArea _ _)).inter
      (isClosed_le continuous_const (continuous_doubleArea _ _)))

theorem exists_delaunay?_covers (decided : Decided points)
    (spread : Spread points)
    (clear : ∀ o, EmptyCircle points o → ∀ s ∈ outerCorners points, 0 < o.power s) :
    ∃ places, delaunay? points = some places ∧ ∀ x ∈ hull points, Covered points places x := by
  have several := (several_of_spread spread).1
  obtain ⟨whole, start⟩ := exists_outermost several
  obtain ⟨a, first, b, second, c, third, turned⟩ := exists_turned spread
  -- the remaining triangles are closed and have the places on no line
  let left : Set (Triangle ℝ) := {t | t ∈ inserted points ∧ ∀ c ∈ t.corners, c ∈ numbered points}
  have finite : left.Finite := (inserted points).finite_toSet.subset fun t kept => kept.1
  have closed : IsClosed (⋃ t ∈ left, {x | t.Spans (spot x)}) :=
    finite.isClosed_biUnion fun t _ => isClosed_spans t
  have covers : hull points ⊆ ⋃ t ∈ left, {x | t.Spans (spot x)} := by
    refine hull_subset_of_generic (interior_hull_nonempty first second third turned)
      (points ++ outerCorners points) closed fun x inside generic => ?_
    obtain ⟨t, member, within⟩ := exists_within_inserted decided start inside generic
    have known := numbered_of_within decided start spread clear inside
      (fun p memP q memQ => generic p (List.mem_append_left _ memP) q
        (List.mem_append_left _ memQ)) member within
    exact Set.mem_biUnion (show t ∈ left from ⟨member, known⟩) (spans_of_within within)
  have found : ∀ x ∈ hull points, ∃ t ∈ (inserted points).filter (·.remains points.length),
      t.Spans (spot x) ∧ ∀ c ∈ t.corners, c ∈ numbered points := by
    intro x inside
    obtain ⟨t, ⟨member, known⟩, spans⟩ := Set.mem_iUnion₂.1 (covers inside)
    exact ⟨t, List.mem_filter.2 ⟨member, (remains_iff decided start member).2 known⟩, spans, known⟩
  obtain ⟨t, remaining, -⟩ := found _ (planar_mem_hull first)
  refine ⟨_, (delaunay?_eq_some_iff several).2 ⟨?_, rfl⟩, fun x inside => ?_⟩
  · exact List.ne_nil_of_mem (List.mem_map_of_mem remaining)
  · obtain ⟨t, remaining, spans, known⟩ := found x inside
    have turned := (tessellates decided start).turned t (List.mem_filter.1 remaining).1
    obtain ⟨memA, memB, memC⟩ := Triangle.forall_corners.1 known
    exact ⟨t.places, List.mem_map_of_mem remaining, t.a.point, t.b.point, t.c.point,
      mem_numbered.1 memA, mem_numbered.1 memB, mem_numbered.1 memC,
      (mem_convexHull_iff_spans turned).2 spans⟩

/-- Where every circle through three points has a corner of the outermost triangle in it,
nothing remains. -/
theorem delaunay?_eq_none (decided : Decided points)
    (reached : ∀ a ∈ points, ∀ b ∈ points, ∀ c ∈ points, ∀ o, circle? a b c = some o →
      ∃ s ∈ outerCorners points, o.power s < 0) : delaunay? points = none := by
  by_cases several : 3 ≤ points.length
  · rw [Option.eq_none_iff_forall_ne_some]
    intro places made
    obtain ⟨whole, start⟩ := exists_outermost several
    obtain ⟨some_, rfl⟩ := (delaunay?_eq_some_iff several).1 made
    obtain ⟨place, entry⟩ := List.exists_mem_of_ne_nil _ some_
    obtain ⟨t, remaining, -⟩ := List.mem_map.1 entry
    obtain ⟨member, remaining⟩ := List.mem_filter.1 remaining
    have known := (remains_iff decided start member).1 remaining
    obtain ⟨memA, memB, memC⟩ := Triangle.forall_corners.1 known
    obtain ⟨s, corner, inner⟩ := reached _ (point_mem_of_mem_numbered memA) _
      (point_mem_of_mem_numbered memB) _ (point_mem_of_mem_numbered memC) _
      ((tessellates decided start).circles t member)
    exact absurd inner (not_lt.2 ((empty_of_mem_inserted decided start member).2 s corner))
  · simp [delaunay?, not_le.1 several]

theorem EmptyCircle.exists_turned {o : Circle ℝ} (empty : EmptyCircle points o) :
    ∃ a ∈ points, ∃ b ∈ points, ∃ c ∈ points, 0 < doubleArea a b c ∧
      o.power a = 0 ∧ o.power b = 0 ∧ o.power c = 0 := by
  obtain ⟨⟨a, first, b, second, c, third, through⟩, -⟩ := empty
  obtain ⟨onA, onB, onC⟩ := power_corners through
  rcases turned_or_turned_swap (doubleArea_ne_zero through) with left | right
  · exact ⟨a, first, b, second, c, third, left, onA, onB, onC⟩
  · exact ⟨b, second, a, first, c, third, right, onB, onA, onC⟩

/-- The triangle that covers a place on no line has the place within. -/
theorem Covered.exists_within (decided : Decided points) {places : List (Nat × Nat × Nat)}
    (made : delaunay? points = some places) (several : 3 ≤ points.length) {x : ℝ × ℝ}
    (covered : Covered points places x) (generic : Generic points x) :
    ∃ t ∈ inserted points, (∀ c ∈ t.corners, c ∈ numbered points) ∧ t.Within (spot x) := by
  obtain ⟨whole, start⟩ := exists_outermost several
  obtain ⟨place, entry, a, b, c, atA, atB, atC, inside⟩ := covered
  obtain ⟨t, member, known, rfl, rfl, rfl⟩ :=
    exists_of_mem_delaunay? several decided made entry atA atB atC
  obtain ⟨memA, memB, memC⟩ := Triangle.forall_corners.1 known
  have turned := (tessellates decided start).turned t member
  exact ⟨t, member, known, within_of_spans (point_mem_of_mem_numbered memA)
    (point_mem_of_mem_numbered memB) (point_mem_of_mem_numbered memC) turned generic
    ((mem_convexHull_iff_spans turned).1 inside)⟩

/-- Where the triangles cover the hull, every empty circle is the circle of one of them. -/
theorem exists_power_eq_of_covers (decided : Decided points)
    {places : List (Nat × Nat × Nat)} (made : delaunay? points = some places)
    (several : 3 ≤ points.length) (covers : ∀ x ∈ hull points, Covered points places x)
    {o : Circle ℝ} (empty : EmptyCircle points o) :
    ∃ t ∈ inserted points, ∀ x, o.power x = t.circle.power x := by
  obtain ⟨whole, start⟩ := exists_outermost several
  obtain ⟨a, first, b, second, c, third, turned, onCircle⟩ := empty.exists_turned
  obtain ⟨x, generic, within⟩ :=
    (dense_generic points).exists_mem_open (isOpen_within a b c) (exists_within turned)
  have inside : x ∈ hull points := convexHull_subset_hull first second third
    ((mem_convexHull_iff_spans turned).2 (spans_of_within within))
  obtain ⟨t, member, known, withinT⟩ :=
    (covers x inside).exists_within decided made several generic
  have out := (empty_of_mem_inserted decided start member).1
  have corners := power_corners ((tessellates decided start).circles t member)
  have outT : ∀ v ∈ t.corners, 0 ≤ o.power v.point := fun v corner =>
    empty.2 _ (point_mem_of_mem_numbered (known v corner))
  have zero := power_eq_zero_of_within onCircle corners within withinT
    ⟨out a first, out b second, out c third⟩ (Triangle.forall_corners.1 outT)
  exact ⟨t, member, Circle.power_eq_of_corners ((tessellates decided start).turned t member).ne'
    (zero.1.trans corners.1.symm) (zero.2.1.trans corners.2.1.symm)
    (zero.2.2.trans corners.2.2.symm)⟩

theorem power_nonneg_of_covers (decided : Decided points)
    {places : List (Nat × Nat × Nat)} (made : delaunay? points = some places)
    (several : 3 ≤ points.length) (covers : ∀ x ∈ hull points, Covered points places x)
    {o : Circle ℝ} (empty : EmptyCircle points o) :
    ∀ s ∈ outerCorners points, 0 ≤ o.power s := by
  obtain ⟨whole, start⟩ := exists_outermost several
  obtain ⟨t, member, same⟩ := exists_power_eq_of_covers decided made several covers empty
  intro s corner
  rw [same s]
  exact (empty_of_mem_inserted decided start member).2 s corner

end Points

end RoadNoise
