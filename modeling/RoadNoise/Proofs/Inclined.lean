/-
# RoadNoise.Proofs.Inclined -- topographic points in a plane

A facet through points of a plane has the plane's elevations, within its corners and beyond:
weights that balance at a place reproduce every affine function of it.  So it does not matter
which facet is found first, and what is read off the ground is the plane's elevation or the
default (`Draft.finish_inclined`).  The default appears where no facet that is entered in the
cell of the place accepts it.  The tolerance of the weights reaches a little beyond a facet's
rectangle, and there a facet may accept a place of a cell that it is not entered in
(`wedge_unanswered`).
-/
import RoadNoise.Proofs.Whole

set_option autoImplicit false

namespace RoadNoise

open Triangulation

/-- The plane with the given rises to the east and to the north and the given elevation at the
origin. -/
structure Incline where
  east : ℝ
  north : ℝ
  base : ℝ

namespace Incline

variable (i : Incline)

/-- The elevation of the plane. -/
noncomputable def elevation (x y : ℝ) : ℝ := i.east * x + i.north * y + i.base

/-- The point lies in the plane. -/
def Has (p : Point ℝ) : Prop := p.z = i.elevation p.x p.y

variable {i} {p q a b : Point ℝ}

theorem elevation_eq (planar : p.Above q) : i.elevation p.x p.y = i.elevation q.x q.y := by
  rw [planar.1, planar.2]

theorem Has.between (first : i.Has a) (second : i.Has b) (s : ℝ) :
    i.Has (Point.between a b s) := by
  unfold Has at *
  simp only [elevation, Point.between] at *
  rw [first, second]
  ring

end Incline

/-! ## Facets and soundings -/

variable {i : Incline}

/-- Whatever place a facet accepts, it has the elevation of the plane there. -/
theorem Facet.elevation?_inclined {f : Facet ℝ} {p : Point ℝ} {z : ℝ}
    (first : i.Has f.a) (second : i.Has f.b) (third : i.Has f.c)
    (known : f.elevation? p = some z) : z = i.elevation p.x p.y := by
  obtain ⟨wa, wb, wc, balanced, -, rfl⟩ := elevation?_eq_some_iff.1 known
  obtain ⟨whole, x, y⟩ := balance_spec balanced
  rw [first, second, third, x, y]
  simp only [Incline.elevation]
  linear_combination i.base * whole

/-- Where a segment crosses an edge between the ends of both, it is sounded at the elevation
of the plane. -/
theorem soundings_inclined {p q a b : Point ℝ} {t s : ℝ} (first : i.Has a) (second : i.Has b)
    (met : Crossing.of p q a b = .point t s) (inside : 0 < t ∧ t < 1) (inside' : 0 < s ∧ s < 1) :
    soundings p q a b
      = [⟨t, i.elevation (Point.between p q t).x (Point.between p q t).y⟩] := by
  rw [Incline.elevation_eq (Crossing.above_of_point met inside inside'),
    ← first.between second s, soundings, met]
  simp only [Point.between, mul_comm s]

/-! ## Reliefs -/

namespace Relief

variable {points : List (Point ℝ)} {r : Relief ℝ}

theorem inclined_of_mem_facets (made : ofPoints? points = some r)
    (inclined : ∀ p ∈ points, i.Has p) {f : Facet ℝ} (member : f ∈ r.facets) :
    i.Has f.a ∧ i.Has f.b ∧ i.Has f.c := by
  obtain ⟨k, entry⟩ := Array.mem_iff_getElem?.1 member
  obtain ⟨first, second, third⟩ := corners_mem made entry
  exact ⟨inclined _ first, inclined _ second, inclined _ third⟩

theorem elevation?_inclined (made : ofPoints? points = some r)
    (inclined : ∀ p ∈ points, i.Has p) {x y z : ℝ} (known : r.elevation? x y = some z) :
    z = i.elevation x y := by
  obtain ⟨k, f, entry, here⟩ := exists_facet_of_elevation? known
  obtain ⟨first, second, third⟩ :=
    inclined_of_mem_facets made inclined (Array.mem_of_getElem? entry)
  exact Facet.elevation?_inclined first second third here

theorem inclined_of_mem_sides (made : ofPoints? points = some r)
    (inclined : ∀ p ∈ points, i.Has p) {f : Facet ℝ} (member : f ∈ r.facets) {a b : Point ℝ}
    (side : (a, b) ∈ f.sides) : i.Has a ∧ i.Has b := by
  obtain ⟨first, second, third⟩ := inclined_of_mem_facets made inclined member
  simp only [Facet.sides, List.mem_cons, Prod.mk.injEq, List.not_mem_nil, or_false] at side
  rcases side with ⟨rfl, rfl⟩ | ⟨rfl, rfl⟩ | ⟨rfl, rfl⟩
  · exact ⟨first, second⟩
  · exact ⟨second, third⟩
  · exact ⟨third, first⟩

end Relief

/-- The ground through topographic points in a plane. -/
theorem Draft.finish_inclined (d : Draft ℝ) (i : Incline) (inclined : ∀ p ∈ d.topography, i.Has p) :
    (∀ x y, d.finish.elevation x y = i.elevation x y ∨
      d.finish.elevation x y = d.defaults.elevation ∧
        ∀ r, d.finish.relief = some r →
          ∀ f ∈ r.facets, r.Enters f ⟨x, y, 0⟩ → f.elevation? ⟨x, y, 0⟩ = none) ∧
    ∀ r, d.finish.relief = some r → ∀ p q,
      (∀ k ∈ r.crossings p q, ∃ f ∈ r.facets, ∃ side ∈ f.sides,
        k ∈ soundings p q side.1 side.2) ∧
      ∀ f ∈ r.facets, ∀ side ∈ f.sides, ∀ t s, Crossing.of p q side.1 side.2 = .point t s →
        (0 < t ∧ t < 1) → (0 < s ∧ s < 1) → soundings p q side.1 side.2
          = [⟨t, i.elevation (Point.between p q t).x (Point.between p q t).y⟩] := by
  rw [finish_relief]
  refine ⟨fun x y => ?_, fun r made p q => ⟨fun k crossing => ?_, ?_⟩⟩
  · cases known : (Relief.ofPoints? d.topography).bind (·.elevation? x y) with
    | some z =>
        obtain ⟨r, made, here⟩ := Option.bind_eq_some_iff.1 known
        left
        rw [Scene.elevation, groundElevation, finish_relief, known]
        exact Relief.elevation?_inclined made inclined here
    | none =>
        right
        refine ⟨?_, fun r made => ?_⟩
        · rw [Scene.elevation, groundElevation, finish_relief, known]
          rfl
        · rw [made] at known
          exact (Relief.elevation?_eq_none_iff made).1 known
  · obtain ⟨n, f, entry, side⟩ := Relief.exists_of_mem_crossings crossing
    exact ⟨f, Array.mem_of_getElem? entry, side⟩
  · rintro f member ⟨a, b⟩ side t s met inside inside'
    obtain ⟨first, second⟩ := Relief.inclined_of_mem_sides made inclined member side
    exact soundings_inclined first second met inside inside'

/-- Three points on a slope. -/
def slopePoints : List ((ℤ × ℤ) × ℤ) := [((0, 0), 10), ((0, 10), 30), ((10, 0), 20)]

/-- A hillside above ground at elevation zero. -/
noncomputable def hillside : Draft ℝ :=
  { Draft.empty with topography := slopePoints.map Lattice.raised }

theorem outerCorners_slope : outerCorners ((slopePoints.map Prod.fst).map Lattice.point)
    = [(-495, -495), (505, -495), (5, 505)].map Lattice.point :=
  Lattice.outerCorners_lattice (b := ⟨0, 0, 10, 10⟩) rfl 5 5 rfl rfl rfl

theorem vertices_hillside : hillside.vertices = slopePoints.map Lattice.raised :=
  Lattice.verticesOf_raised (by decide)

/-- A place between the points is known to the relief. -/
theorem hillside_known : ∃ r, hillside.finish.relief = some r ∧
    r.elevation? 2 3 = some (hillside.finish.elevation 2 3) := by
  have decided : Decided hillside.vertices := by
    rw [vertices_hillside]
    exact Lattice.decided_raised (Lattice.decided_of_lattice outerCorners_slope (by decide +kernel))
  have spread : Spread hillside.vertices := by
    rw [vertices_hillside]
    exact Lattice.spread_raised (Lattice.spread_of_lattice (by decide))
  have clear : ∀ o, EmptyCircle hillside.vertices o →
      ∀ s ∈ outerCorners hillside.vertices, 0 < o.power s := by
    rw [vertices_hillside]
    exact Lattice.clear_raised (Lattice.clear_of_lattice outerCorners_slope (by decide))
  obtain ⟨r, made, known⟩ := (hillside.finish_covers decided spread).1 clear
  have corner : ∀ e ∈ slopePoints, Lattice.raised e ∈ hillside.vertices := by
    rw [vertices_hillside]
    exact fun e entry => List.mem_map_of_mem entry
  have turned : 0 < doubleArea (Lattice.raised ((0, 0), 10)) (Lattice.raised ((10, 0), 20))
      (Lattice.raised ((0, 10), 30)) := by
    norm_num [doubleArea, Lattice.raised, Lattice.point, Point.raisedTo]
  refine ⟨r, made, (known (2, 3) ?_).2⟩
  refine convexHull_subset_hull (corner _ (by simp [slopePoints])) (corner _ (by simp [slopePoints]))
    (corner _ (by simp [slopePoints])) ((mem_convexHull_iff_spans turned).2 ?_)
  norm_num [Spans, doubleArea_spot, Lattice.raised, Lattice.point, Point.raisedTo]

/-- The ground on the hillside is on the slope. -/
theorem hillside_inclined :
    (∀ p ∈ hillside.topography, (⟨1, 2, 10⟩ : Incline).Has p) ∧
      hillside.finish.elevation 2 3 = 18 := by
  have inclined : ∀ p ∈ hillside.topography, (⟨1, 2, 10⟩ : Incline).Has p := by
    norm_num [hillside, slopePoints, Incline.Has, Incline.elevation, Lattice.raised, Lattice.point,
      Point.raisedTo]
  refine ⟨inclined, ?_⟩
  rcases (hillside.finish_inclined _ inclined).1 2 3 with plane | ⟨-, silent⟩
  · norm_num [plane, Incline.elevation]
  · obtain ⟨r, made, known⟩ := hillside_known
    have surface : Relief.ofPoints? hillside.topography = some r :=
      hillside.finish_relief.symm.trans made
    have none_ := (Relief.elevation?_eq_none_iff surface).2 (silent r made)
    exact absurd (known.symm.trans none_) (Option.some_ne_none _)

/-! ## A place beside a facet -/

/-- A right triangle, with the right angle at the origin. -/
def wedge : List (ℤ × ℤ) := [(0, 0), (0, 10), (10, 0)]

theorem outerCorners_wedge : outerCorners (wedge.map Lattice.point)
    = [(-495, -495), (505, -495), (5, 505)].map Lattice.point :=
  Lattice.outerCorners_lattice (b := ⟨0, 0, 10, 10⟩) rfl 5 5 rfl rfl rfl

theorem vertices_wedge : (levelDraft wedge).vertices = wedge.map Lattice.point :=
  (Lattice.verticesOf_lattice (by decide)).1

/-- There is a relief, with a facet at the right angle. -/
theorem exists_facet_wedge : ∃ r f z, Relief.ofPoints? (levelDraft wedge).topography = some r ∧
    f ∈ r.facets ∧ f.elevation? ⟨0, 0, 0⟩ = some z := by
  have decided : Decided (wedge.map Lattice.point) :=
    Lattice.decided_of_lattice outerCorners_wedge (by decide +kernel)
  have clear : ∀ o, EmptyCircle (wedge.map Lattice.point) o →
      ∀ s ∈ outerCorners (wedge.map Lattice.point), 0 < o.power s :=
    Lattice.clear_of_lattice outerCorners_wedge (by decide)
  have spread : Spread (wedge.map Lattice.point) := Lattice.spread_of_lattice (by decide)
  rw [← vertices_wedge] at decided clear spread
  obtain ⟨r, made, covers⟩ := Relief.exists_ofPoints?_covers decided spread clear
  have first : Lattice.point (0, 0) ∈ (levelDraft wedge).vertices := by
    rw [vertices_wedge]
    simp [wedge]
  obtain ⟨-, z, known⟩ := covers _ (planar_mem_hull first)
  obtain ⟨k, f, entry, here⟩ := Relief.exists_facet_of_elevation? known
  refine ⟨r, f, z, made, Array.mem_of_getElem? entry, ?_⟩
  simpa [Point.planar, Lattice.point] using here

/-- A triangle with these corners, in whatever order, accepts the place. -/
theorem elevation?_wedge {f : Facet ℝ} {z : ℝ} (solid : f.elevation? ⟨0, 0, 0⟩ = some z)
    (first : f.a ∈ wedge.map Lattice.point) (second : f.b ∈ wedge.map Lattice.point)
    (third : f.c ∈ wedge.map Lattice.point) :
    f.elevation? ⟨-0.000000005, 5, 0⟩ = some 0 := by
  obtain ⟨wa, wb, wc, balanced, -, -⟩ := Facet.elevation?_eq_some_iff.1 solid
  obtain ⟨a, b, c⟩ := f
  have apart : doubleArea a b c ≠ 0 := by
    intro flat
    have area := (balance?_eq_some_iff.1 balanced).1
    rw [flat, abs_zero] at area
    exact area.not_gt Scalar.eps_pos
  simp only [wedge, List.map_cons, List.map_nil, List.mem_cons, List.not_mem_nil, or_false]
    at first second third
  -- two corners at one point leave no area, and the six orders of the three are computed
  rcases first with rfl | rfl | rfl <;> rcases second with rfl | rfl | rfl <;>
    rcases third with rfl | rfl | rfl <;>
    first
    | exact (apart (by simp)).elim
    | norm_num [Facet.elevation?, balance?, doubleArea, Lattice.point, Scalar.eps_eq]

theorem xmin_nonneg_wedge {f : Facet ℝ} (first : f.a ∈ wedge.map Lattice.point)
    (second : f.b ∈ wedge.map Lattice.point) (third : f.c ∈ wedge.map Lattice.point) :
    0 ≤ f.box.xmin := by
  have east : ∀ v ∈ wedge.map Lattice.point, 0 ≤ v.x := by
    simp [wedge, Lattice.point]
  exact le_min (le_min (east _ first) (east _ second)) (east _ third)

/-- A place to the west of the triangle, by half of what the tolerance allows, is accepted by
the triangle.  But it is in another column of cells and gets the default elevation. -/
theorem wedge_unanswered :
    (levelDraft wedge).Made ∧ (∀ p ∈ (levelDraft wedge).topography, (⟨0, 0, 0⟩ : Incline).Has p) ∧
      ∃ r, (levelDraft wedge).finish.relief = some r ∧
        (∃ f ∈ r.facets, f.elevation? ⟨-0.000000005, 5, 0⟩ = some 0) ∧
        (levelDraft wedge).finish.elevation (-0.000000005) 5 = 10 := by
  obtain ⟨r, f, z, made, member, solid⟩ := exists_facet_wedge
  have level : ∀ p ∈ (levelDraft wedge).topography, (⟨0, 0, 0⟩ : Incline).Has p := by
    simp [levelDraft, wedge, Incline.Has, Incline.elevation, Lattice.point]
  have corners : ∀ g ∈ r.facets, g.a ∈ wedge.map Lattice.point ∧
      g.b ∈ wedge.map Lattice.point ∧ g.c ∈ wedge.map Lattice.point := by
    intro g member
    obtain ⟨k, entry⟩ := Array.mem_iff_getElem?.1 member
    exact Relief.corners_mem made entry
  have relief := (levelDraft wedge).finish_relief.trans made
  have silent : r.elevation? (-0.000000005) 5 = none := by
    refine (Relief.elevation?_eq_none_iff made).2 fun g member enters => ?_
    obtain ⟨first, second, third⟩ := corners g member
    have positive : 0 < r.grid.step := Relief.step_pos made
    have west := (Grid.line_nonneg_iff positive).2 (xmin_nonneg_wedge first second third)
    have column := (Block.mem_cells.1 enters).1.1
    have east := (Grid.line_nonneg_iff positive).1 (west.trans column)
    norm_num at east
  obtain ⟨first, second, third⟩ := corners f member
  refine ⟨levelDraft_made (by decide), level, r, relief,
    ⟨f, member, elevation?_wedge solid first second third⟩, ?_⟩
  rw [Scene.elevation, groundElevation, relief, Option.bind_some, silent]
  rfl

end RoadNoise
