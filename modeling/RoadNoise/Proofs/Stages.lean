/-
# RoadNoise.Proofs.Stages -- the triangles between two insertions

What `RoadNoise.Proofs.Delaunay` says of the triangles needs the tolerances to decide
nothing.  Some of it holds of any points, repeated ones and runs on a line among them.
Between two insertions every stored triangle is sound (`Sound`): its corners have three
places, it turns counter-clockwise, and its circle passes through its corners.

A fan keeps that because of two tests that fit together.  It turns a side round unless the
new corner lies left of it, so the area is not negative (`fan?_turned`), and then the test
for a circle, made on twice the area, leaves at least half the tolerance
(`half_eps_le_of_circle?`).  The last filter asks for more than the tolerance in either
direction, and of what is sound nothing is clockwise (`delaunay?_sound`).
-/
import RoadNoise.Proofs.Lattice

set_option autoImplicit false

namespace RoadNoise

open Triangulation

namespace Triangulation

/-- The corners are three of the points, by their numbers; the triangle turns
counter-clockwise and is not too flat for a circle, and the circle that is stored with it
passes through its corners. -/
structure Sound (points : List (Point ℝ)) (t : Triangle ℝ) : Prop where
  placed : ∀ c ∈ t.corners, points[c.number]? = some c.point
  apart : t.a.number ≠ t.b.number ∧ t.b.number ≠ t.c.number ∧ t.c.number ≠ t.a.number
  solid : Scalar.eps / 2 ≤ t.area
  round : ∀ c ∈ t.corners,
    Scalar.sq (t.circle.x - c.point.x) + Scalar.sq (t.circle.y - c.point.y) = t.circle.square

/-! ## One triangle -/

section Made

variable {points : List (Point ℝ)} {a b c p : Corner ℝ} {s : Side ℝ} {t : Triangle ℝ}

theorem half_eps_le_of_circle? {u v w : Point ℝ} {o : Circle ℝ} (through : circle? u v w = some o) :
    Scalar.eps / 2 ≤ |doubleArea u v w| := by
  have solid := (circle?_eq_some_iff.1 through).1
  rw [abs_mul, abs_two] at solid
  linarith

/-- Corners with one number are one point, and over one point there is no area. -/
theorem apart_of_placed (placed : ∀ c ∈ t.corners, points[c.number]? = some c.point)
    (solid : t.area ≠ 0) :
    t.a.number ≠ t.b.number ∧ t.b.number ≠ t.c.number ∧ t.c.number ≠ t.a.number := by
  have point_eq : ∀ c ∈ t.corners, ∀ d ∈ t.corners, c.number = d.number → c.point = d.point := by
    intro c first d second same
    have atC := placed c first
    rw [same, placed d second] at atC
    exact (Option.some.inj atC).symm
  have known : t.a ∈ t.corners ∧ t.b ∈ t.corners ∧ t.c ∈ t.corners := by simp
  refine ⟨fun same => solid ?_, fun same => solid ?_, fun same => solid ?_⟩
  · rw [Triangle.area, point_eq _ known.1 _ known.2.1 same, doubleArea_same]
  · rw [Triangle.area, point_eq _ known.2.1 _ known.2.2 same, doubleArea_right]
  · rw [Triangle.area, point_eq _ known.2.2 _ known.1 same, doubleArea_left]

/-- A triangle that is made of known corners in counter-clockwise order is sound. -/
theorem Sound.of_of? (placed : ∀ d ∈ [a, b, c], points[d.number]? = some d.point)
    (turned : 0 ≤ doubleArea a.point b.point c.point) (made : Triangle.of? a b c = some t) :
    Sound points t := by
  obtain ⟨o, through, rfl⟩ := Option.map_eq_some_iff.1 made
  have solid := half_eps_le_of_circle? through
  rw [abs_of_nonneg turned] at solid
  have round : ∀ d ∈ [a, b, c], o.power d.point = 0 := by
    simpa using power_corners through
  refine ⟨placed, apart_of_placed placed (doubleArea_ne_zero through), solid, ?_⟩
  intro d corner
  exact sub_eq_zero.1 (round d corner)

/-- Over either side of a line a fan makes the triangle that turns counter-clockwise. -/
theorem fan?_turned (made : fan? p s = some t) :
    ∃ a b, (a = s.1 ∧ b = s.2 ∨ a = s.2 ∧ b = s.1) ∧ 0 ≤ doubleArea a.point b.point p.point ∧
      Triangle.of? a b p = some t := by
  unfold fan? at made
  split_ifs at made with left
  · have left : 0 < doubleArea s.1.point s.2.point p.point := left
    exact ⟨s.1, s.2, .inl ⟨rfl, rfl⟩, left.le, made⟩
  · have right : ¬0 < doubleArea s.1.point s.2.point p.point := left
    refine ⟨s.2, s.1, .inr ⟨rfl, rfl⟩, ?_, made⟩
    rw [doubleArea_swap]
    exact neg_nonneg.2 (not_lt.1 right)

theorem Sound.fan? (first : points[s.1.number]? = some s.1.point)
    (second : points[s.2.number]? = some s.2.point) (tip : points[p.number]? = some p.point)
    (made : fan? p s = some t) : Sound points t := by
  obtain ⟨a, b, ends, turned, made⟩ := fan?_turned made
  refine Sound.of_of? ?_ turned made
  rcases ends with ⟨rfl, rfl⟩ | ⟨rfl, rfl⟩
  · simp [first, second, tip]
  · simp [first, second, tip]

end Made

/-! ## One insertion -/

section Insertions

variable {points : List (Point ℝ)} {ts : List (Triangle ℝ)} {p : Corner ℝ}

theorem mem_sides_of_mem_rim {cavity : List (Triangle ℝ)} {s : Side ℝ} (onRim : s ∈ rim cavity) :
    ∃ t ∈ cavity, s ∈ t.sides := by
  rw [rim, Sequence.mem_sortOn] at onRim
  exact List.mem_flatMap.1 (List.mem_of_mem_filter onRim)

theorem Sound.placed_of_mem_sides {t : Triangle ℝ} (sound : Sound points t) {s : Side ℝ}
    (side : s ∈ t.sides) :
    points[s.1.number]? = some s.1.point ∧ points[s.2.number]? = some s.2.point := by
  obtain ⟨-, -, ⟨first, second⟩, -⟩ := Triangle.exists_apex side
  exact ⟨sound.placed _ first, sound.placed _ second⟩

/-- An insertion leaves sound triangles: those that were there and those of the fan. -/
theorem sound_insertCorner (sound : ∀ t ∈ ts, Sound points t)
    (placed : points[p.number]? = some p.point) : ∀ t ∈ insertCorner ts p, Sound points t := by
  intro t member
  rw [insertCorner_eq] at member
  split_ifs at member with untouched
  · exact sound t member
  · rcases List.mem_append.1 member with old | new
    · exact sound t (List.mem_of_mem_filter old)
    · obtain ⟨s, onRim, made⟩ := List.mem_filterMap.1 new
      obtain ⟨u, reached, side⟩ := mem_sides_of_mem_rim onRim
      obtain ⟨first, second⟩ :=
        (sound u (List.mem_of_mem_filter reached)).placed_of_mem_sides side
      exact Sound.fan? first second placed made

end Insertions

end Triangulation

/-! ## The stages of a triangulation -/

variable {points : List (Point ℝ)}

/-- The triangles when the first `k` points have been inserted.  While the next is inserted, the
list holds triangles of this stage and of the one after it only. -/
noncomputable def stage (points : List (Point ℝ)) (k : Nat) : List (Triangle ℝ) :=
  ((numbered points).take k).foldl insertCorner (outermost points).toList

theorem stage_zero (points : List (Point ℝ)) : stage points 0 = (outermost points).toList := rfl

theorem stage_succ (points : List (Point ℝ)) (k : Nat) :
    stage points (k + 1) = (numbered points)[k]?.toList.foldl insertCorner (stage points k) := by
  rw [stage, List.take_add_one, List.foldl_append]
  rfl

theorem stage_length (points : List (Point ℝ)) : stage points points.length = inserted points := by
  have whole : (numbered points).take points.length = numbered points := by
    apply List.take_of_length_le
    simp [numbered]
  rw [stage, whole, inserted]

theorem placed_of_mem_numbered {c : Corner ℝ} (member : c ∈ numbered points) :
    (points ++ outerCorners points)[c.number]? = some c.point := by
  rw [List.getElem?_append_left (lt_of_mem_numbered member)]
  exact mem_numbered.1 member

/-- The outermost triangle has the three places after those of the points. -/
theorem sound_outermost {whole : Triangle ℝ} (start : outermost points = some whole) :
    Sound (points ++ outerCorners points) whole := by
  obtain ⟨box, around, made⟩ := Option.bind_eq_some_iff.1 start
  have turned := (turned_outermost? made).le
  have placed : ∀ c ∈ whole.corners, (points ++ outerCorners points)[c.number]? = some c.point := by
    obtain ⟨a, b, c, -⟩ := corners_outermost? made
    rw [outerCorners_eq around, Triangle.forall_corners, a, b, c]
    simp
  obtain ⟨o, -, same⟩ := Option.map_eq_some_iff.1 made
  subst same
  exact Sound.of_of? placed turned made

theorem sound_stage (points : List (Point ℝ)) (k : Nat) :
    ∀ t ∈ stage points k, Sound (points ++ outerCorners points) t := by
  induction k with
  | zero =>
      intro t member
      rw [stage_zero] at member
      exact sound_outermost (Option.mem_toList.1 member)
  | succ k ih =>
      rw [stage_succ]
      cases entry : (numbered points)[k]? with
      | none => exact ih
      | some c => exact sound_insertCorner ih (placed_of_mem_numbered (List.mem_of_getElem? entry))

/-- A sound triangle that remains has three of the points, with more than the tolerance
between them. -/
theorem Triangulation.Sound.places {t : Triangle ℝ}
    (sound : Sound (points ++ outerCorners points) t)
    (remains : t.remains points.length = true) :
    ∃ (_ : t.a.number < points.length) (_ : t.b.number < points.length)
      (_ : t.c.number < points.length),
      Scalar.eps < doubleArea points[t.a.number] points[t.b.number] points[t.c.number] := by
  simp only [Triangle.remains, Bool.and_eq_true, decide_eq_true_eq] at remains
  obtain ⟨⟨⟨first, second⟩, third⟩, wide⟩ := remains
  have wide : Scalar.eps < |t.area| := wide
  have point_eq : ∀ c ∈ t.corners, ∀ below : c.number < points.length,
      points[c.number] = c.point := by
    intro c corner below
    have placed := sound.placed c corner
    rw [List.getElem?_append_left below, List.getElem?_eq_getElem below] at placed
    exact Option.some.inj placed
  obtain ⟨atA, atB, atC⟩ := Triangle.forall_corners.1 point_eq
  refine ⟨first, second, third, ?_⟩
  rw [atA first, atB second, atC third]
  -- of the two directions that the filter lets pass, soundness leaves one
  have turned : 0 ≤ t.area := by
    have := sound.solid
    have := Scalar.eps_pos
    linarith
  rwa [abs_of_nonneg turned] at wide

/-- Whatever the points are, all triangles of all stages are sound, and what is answered are
those of the last stage with three different points for corners, counter-clockwise and with
more area than the tolerance. -/
theorem delaunay?_sound (points : List (Point ℝ)) :
    (∀ k, ∀ t ∈ stage points k, Sound (points ++ outerCorners points) t) ∧
    ∀ places, delaunay? points = some places →
      places = ((stage points points.length).filter (·.remains points.length)).map
        Triangle.places ∧
      ∀ e ∈ places, (e.1 ≠ e.2.1 ∧ e.2.1 ≠ e.2.2 ∧ e.2.2 ≠ e.1) ∧
        ∃ (_ : e.1 < points.length) (_ : e.2.1 < points.length) (_ : e.2.2 < points.length),
          Scalar.eps < doubleArea points[e.1] points[e.2.1] points[e.2.2] := by
  refine ⟨sound_stage points, fun places made => ?_⟩
  have several : 3 ≤ points.length := by
    by_contra few
    simp [delaunay?, not_le.1 few] at made
  obtain ⟨-, rfl⟩ := (delaunay?_eq_some_iff several).1 made
  refine ⟨by rw [stage_length], fun e entry => ?_⟩
  obtain ⟨t, remaining, rfl⟩ := List.mem_map.1 entry
  obtain ⟨member, remains⟩ := List.mem_filter.1 remaining
  rw [← stage_length] at member
  have sound := sound_stage points _ t member
  exact ⟨sound.apart, sound.places remains⟩

/-- A square with one corner given twice and a point on the side between two corners. -/
def plot : List (ℤ × ℤ) := [(0, 0), (1, 0), (0, 0), (2, 0), (0, 2), (2, 2)]

theorem outerCorners_plot : outerCorners (plot.map Lattice.point)
    = [(-99, -99), (101, -99), (1, 101)].map Lattice.point :=
  Lattice.outerCorners_lattice (b := ⟨0, 0, 2, 2⟩) rfl 1 1 rfl rfl rfl

theorem exists_mem_delaunay?_plot :
    ∃ places e, delaunay? (plot.map Lattice.point) = some places ∧ e ∈ places := by
  have decided : Decided (plot.map Lattice.point) :=
    Lattice.decided_of_lattice outerCorners_plot (by decide +kernel)
  have clear : ∀ o, EmptyCircle (plot.map Lattice.point) o →
      ∀ s ∈ outerCorners (plot.map Lattice.point), 0 < o.power s :=
    Lattice.clear_of_lattice outerCorners_plot (by decide +kernel)
  have spread : Spread (plot.map Lattice.point) := Lattice.spread_of_lattice (by decide)
  obtain ⟨places, made, covers⟩ := exists_delaunay?_covers decided spread clear
  have first : Lattice.point (0, 0) ∈ plot.map Lattice.point := by simp [plot]
  obtain ⟨e, entry, -⟩ := covers _ (planar_mem_hull first)
  exact ⟨places, e, made, entry⟩

/-- The plot has triangles, and they are sound. -/
theorem plot_sound :
    ∃ places e, delaunay? (plot.map Lattice.point) = some places ∧ e ∈ places ∧
      (e.1 ≠ e.2.1 ∧ e.2.1 ≠ e.2.2 ∧ e.2.2 ≠ e.1) ∧
      ∃ t ∈ stage (plot.map Lattice.point) 6,
        Sound (plot.map Lattice.point ++ outerCorners (plot.map Lattice.point)) t ∧
          t.places = e := by
  obtain ⟨places, e, made, entry⟩ := exists_mem_delaunay?_plot
  obtain ⟨stages, answers⟩ := delaunay?_sound (plot.map Lattice.point)
  obtain ⟨computed, sound⟩ := answers places made
  have entry' := entry
  rw [computed] at entry'
  obtain ⟨t, remaining, same⟩ := List.mem_map.1 entry'
  have member := List.mem_of_mem_filter remaining
  exact ⟨places, e, made, entry, (sound e entry).1, t, member, stages 6 t member, same⟩

end RoadNoise
