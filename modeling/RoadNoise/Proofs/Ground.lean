/-
# RoadNoise.Proofs.Ground -- the ground over the hull of its points

The relief through topographic points has an elevation at every place of their convex
hull as long as no corner of the outermost triangle lies in a circle that is empty of
points (`Draft.finish_covers`).  A flat triangle along the rim of the hull has a circle
that reaches out to those corners, however large the outermost triangle is made: its
place stays empty, and three points on a slight ridge have no relief at all
(`ridge_uncovered`).
-/
import RoadNoise.Proofs.Distance
import RoadNoise.Proofs.Drafts
import RoadNoise.Proofs.Lattice
import RoadNoise.Proofs.Relief

set_option autoImplicit false

namespace RoadNoise

open Triangulation

/-! ## Elevations where triangles cover -/

namespace Facet

theorem exists_elevation? {f : Facet ℝ} (solid : Scalar.eps < doubleArea f.a f.b f.c)
    {x : ℝ × ℝ} (inside : x ∈ convexHull ℝ {f.a.planar, f.b.planar, f.c.planar}) :
    ∃ z, f.elevation? (spot x) = some z := by
  have turned : 0 < doubleArea f.a f.b f.c := Scalar.eps_pos.trans solid
  obtain ⟨first, second, third⟩ := (mem_convexHull_iff_spans turned).1 inside
  have sum := doubleArea_sum f.a f.b f.c (spot x)
  have atA : doubleArea (spot x) f.b f.c = doubleArea f.b f.c (spot x) :=
    (doubleArea_rotate (spot x) f.b f.c).symm
  have atB : doubleArea f.a (spot x) f.c = doubleArea f.c f.a (spot x) :=
    doubleArea_rotate f.c f.a (spot x)
  have atC : 1 - doubleArea f.b f.c (spot x) / doubleArea f.a f.b f.c
      - doubleArea f.c f.a (spot x) / doubleArea f.a f.b f.c
        = doubleArea f.a f.b (spot x) / doubleArea f.a f.b f.c := by
    field_simp
    linarith
  have low : ∀ w : ℝ, 0 ≤ w → -Scalar.eps ≤ w / doubleArea f.a f.b f.c := by
    intro w nonneg
    exact (neg_nonpos.2 Scalar.eps_pos.le).trans (div_nonneg nonneg turned.le)
  refine ⟨_, elevation?_eq_some_iff.2 ⟨_, _, _, balance?_eq_some_iff.2
    ⟨solid.le.trans (le_abs_self _), rfl⟩, ?_, rfl⟩⟩
  rw [atA, atB, atC]
  exact ⟨low _ second, low _ third, low _ first⟩

theorem covers_of_mem_convexHull {f : Facet ℝ} {x : ℝ × ℝ}
    (inside : x ∈ convexHull ℝ {f.a.planar, f.b.planar, f.c.planar}) : f.box.Covers (spot x) := by
  have around : Box.around? [f.a, f.b, f.c] = some f.box := rfl
  exact covers_of_mem_hull around
    (convexHull_subset_hull (by simp) (by simp) (by simp) inside)

end Facet

namespace Relief

variable {points : List (Point ℝ)} {r : Relief ℝ}

/-- A place that a triangle has gets an elevation from a facet. -/
theorem exists_elevation? (made : ofPoints? points = some r) (several : 3 ≤ r.vertices.length)
    (decided : Decided r.vertices) {x : ℝ × ℝ} (covered : Covered r.vertices r.triangles x) :
    ∃ z, r.elevation? x.1 x.2 = some z := by
  obtain ⟨-, found, facets, -⟩ := ofPoints?_eq_some made
  obtain ⟨t, entry, a, b, c, first, second, third, inside⟩ := covered
  obtain ⟨u, member, known, rfl, rfl, rfl⟩ :=
    exists_of_mem_delaunay? several decided found entry first second third
  obtain ⟨whole, start⟩ := exists_outermost several
  have solid : Scalar.eps < u.area := solid_of_mem_inserted decided start member
  have corners : facetOf? r.vertices.toArray t
      = some ⟨u.a.point, u.b.point, u.c.point⟩ := facetOf?_eq_some_iff.2 ⟨first, second, third⟩
  obtain ⟨z, here⟩ := Facet.exists_elevation? (f := ⟨u.a.point, u.b.point, u.c.point⟩) solid inside
  have facet : (⟨u.a.point, u.b.point, u.c.point⟩ : Facet ℝ) ∈ r.facets := by
    rw [facets, List.mem_toArray]
    exact List.mem_filterMap.2 ⟨t, entry, corners⟩
  have enters : r.Enters ⟨u.a.point, u.b.point, u.c.point⟩ (spot x) :=
    Grid.mem_cells_of_covers (step_pos made)
      (Facet.covers_of_mem_convexHull (f := ⟨u.a.point, u.b.point, u.c.point⟩) inside)
  refine Option.ne_none_iff_exists'.1 fun silent => ?_
  have refused := (elevation?_eq_none_iff made).1 silent _ facet enters
  exact Option.some_ne_none z (here.symm.trans refused)

/-- There is a relief, and it knows the hull of its vertices. -/
theorem exists_ofPoints?_covers (decided : Decided (verticesOf points))
    (spread : Spread (verticesOf points))
    (clear : ∀ o, EmptyCircle (verticesOf points) o →
      ∀ s ∈ outerCorners (verticesOf points), 0 < o.power s) :
    ∃ r, ofPoints? points = some r ∧ ∀ x ∈ hull (verticesOf points),
      Covered r.vertices r.triangles x ∧ ∃ z, r.elevation? x.1 x.2 = some z := by
  obtain ⟨places, found, covers⟩ := exists_delaunay?_covers decided spread clear
  obtain ⟨r, made⟩ : ∃ r, ofPoints? points = some r :=
    ⟨_, Option.bind_eq_some_iff.2 ⟨places, found, rfl⟩⟩
  obtain ⟨same, triangles, -⟩ := ofPoints?_eq_some made
  rw [same, found, Option.some.injEq] at triangles
  refine ⟨r, made, fun x inside => ?_⟩
  have covered : Covered r.vertices r.triangles x := by
    rw [same, ← triangles]
    exact covers x inside
  have several := (several_of_spread spread).1
  exact ⟨covered, exists_elevation? made (by rwa [same]) (by rwa [same]) covered⟩

theorem hull_verticesOf (apart : points.Pairwise fun p q => p.samePlanar q = false) :
    hull (verticesOf points) = hull points := by
  have sorted : (Sequence.sortOn Point.order points).Pairwise
      fun p q => q.samePlanar p = false := by
    refine ((Sequence.sortOn_perm Point.order points).pairwise_iff ?_).2 (apart.imp ?_)
    · intro p q told
      rwa [Point.samePlanar_comm]
    · intro p q told
      rwa [Point.samePlanar_comm]
  have members : ∀ p, p ∈ verticesOf points ↔ p ∈ points := by
    intro p
    rw [verticesOf, Sequence.thin_eq_self sorted, Sequence.mem_sortOn]
  simp only [hull, members]

end Relief

namespace Draft

theorem finish_relief (d : Draft ℝ) : d.finish.relief = Relief.ofPoints? d.topography := by
  cases known : d.topography with
  | nil => simp [finish, known, Relief.ofPoints?, Relief.verticesOf, Sequence.sortOn,
      Sequence.thin, delaunay?]
  | cons p points => simp [finish, known]

/-- The topographic points that the ground is made of. -/
noncomputable def vertices (d : Draft ℝ) : List (Point ℝ) := Relief.verticesOf d.topography

/-- The triangles cover the hull of the points whenever the corners of the outermost
triangle lie off the empty circles, and never where one lies in such a circle. -/
theorem finish_covers (d : Draft ℝ) (decided : Decided d.vertices) (spread : Spread d.vertices) :
    ((∀ o, EmptyCircle d.vertices o → ∀ s ∈ outerCorners d.vertices, 0 < o.power s) →
      ∃ r, d.finish.relief = some r ∧
        ∀ x ∈ hull d.vertices, Covered r.vertices r.triangles x ∧
          r.elevation? x.1 x.2 = some (d.finish.elevation x.1 x.2)) ∧
    ((∃ r, d.finish.relief = some r ∧ ∀ x ∈ hull d.vertices, Covered r.vertices r.triangles x) →
      ∀ o, EmptyCircle d.vertices o → ∀ s ∈ outerCorners d.vertices, 0 ≤ o.power s) ∧
    (d.topography.Pairwise (fun p q => p.samePlanar q = false) →
      hull d.vertices = hull d.topography) := by
  have several := (several_of_spread spread).1
  refine ⟨fun clear => ?_, ?_, Relief.hull_verticesOf⟩
  · obtain ⟨r, made, covers⟩ := Relief.exists_ofPoints?_covers decided spread clear
    have relief := d.finish_relief.trans made
    refine ⟨r, relief, fun x inside => ?_⟩
    obtain ⟨covered, z, known⟩ := covers x inside
    have elevation : d.finish.elevation x.1 x.2 = z := by
      simp [Scene.elevation, groundElevation, relief, known]
    exact ⟨covered, by rw [elevation, known]⟩
  · rintro ⟨r, relief, covers⟩ o empty
    rw [finish_relief] at relief
    have same : r.vertices = d.vertices := (Relief.ofPoints?_eq_some relief).1
    have found := (Relief.ofPoints?_eq_some relief).2.1
    rw [same] at found covers
    exact power_nonneg_of_covers decided found several covers empty

end Draft

/-! ## Level points -/

/-- Points at elevation zero, in the midst of ground at elevation ten. -/
noncomputable def levelDraft (ps : List (ℤ × ℤ)) : Draft ℝ :=
  { Draft.empty with topography := ps.map Lattice.point, defaults := ⟨0, (10 : ℕ), 0.1⟩ }

theorem levelDraft_made {ps : List (ℤ × ℤ)} (several : 2 ≤ ps.length) : (levelDraft ps).Made :=
  .ofPoints (by simpa using several) _

/-- A square, with all corners on one circle. -/
def square : List (ℤ × ℤ) := [(0, 0), (0, 2), (2, 0), (2, 2)]

theorem outerCorners_square : outerCorners (square.map Lattice.point)
    = [(-99, -99), (101, -99), (1, 101)].map Lattice.point :=
  Lattice.outerCorners_lattice (b := ⟨0, 0, 2, 2⟩) rfl 1 1 rfl rfl rfl

/-- Two metres of rise over the middle of two kilometres. -/
def ridge : List (ℤ × ℤ) := [(0, 0), (1000, 2), (2000, 0)]

theorem outerCorners_ridge : outerCorners (ridge.map Lattice.point)
    = [(-99000, -99999), (101000, -99999), (1000, 100001)].map Lattice.point :=
  Lattice.outerCorners_lattice (b := ⟨0, 0, 2000, 2⟩) rfl 1000 1 rfl rfl rfl

theorem decided_square : Decided (square.map Lattice.point) :=
  Lattice.decided_of_lattice outerCorners_square (by decide +kernel)

theorem decided_ridge : Decided (ridge.map Lattice.point) :=
  Lattice.decided_of_lattice outerCorners_ridge (by decide +kernel)

theorem vertices_square : (levelDraft square).vertices = square.map Lattice.point :=
  (Lattice.verticesOf_lattice (by decide)).1

theorem vertices_ridge : (levelDraft ridge).vertices = ridge.map Lattice.point :=
  (Lattice.verticesOf_lattice (by decide)).1

/-- The ground over the square is known everywhere. -/
theorem square_covered :
    Decided (levelDraft square).vertices ∧ Spread (levelDraft square).vertices ∧
      (∀ o, EmptyCircle (levelDraft square).vertices o →
        ∀ s ∈ outerCorners (levelDraft square).vertices, 0 < o.power s) ∧
      ∃ r, (levelDraft square).finish.relief = some r ∧
        ∀ x ∈ hull (levelDraft square).topography, Covered r.vertices r.triangles x ∧
          r.elevation? x.1 x.2 = some ((levelDraft square).finish.elevation x.1 x.2) := by
  have decided : Decided (levelDraft square).vertices := by
    rw [vertices_square]
    exact decided_square
  have clear : ∀ o, EmptyCircle (levelDraft square).vertices o →
      ∀ s ∈ outerCorners (levelDraft square).vertices, 0 < o.power s := by
    rw [vertices_square]
    exact Lattice.clear_of_lattice outerCorners_square (by decide)
  have spread : Spread (levelDraft square).vertices := by
    rw [vertices_square]
    refine ⟨Lattice.point (0, 0), by simp [square], Lattice.point (2, 0), by simp [square],
      Lattice.point (2, 2), by simp [square], ?_⟩
    rw [Lattice.doubleArea_point]
    norm_num [Lattice.area]
  obtain ⟨covers, -, same⟩ := (levelDraft square).finish_covers decided spread
  obtain ⟨r, made, known⟩ := covers clear
  have told : (levelDraft square).topography.Pairwise fun p q => p.samePlanar q = false :=
    (Lattice.verticesOf_lattice (by decide)).2
  rw [same told] at known
  exact ⟨decided, spread, clear, r, made, known⟩

/-- Three points on a slight ridge, well apart and off a line, have no triangle, and the
ground between them has the default elevation. -/
theorem ridge_uncovered :
    (levelDraft ridge).Made ∧
      (levelDraft ridge).topography.Pairwise (fun p q => Scalar.eps < p.planarDistance q) ∧
      Spread (levelDraft ridge).topography ∧ (1000, 1) ∈ hull (levelDraft ridge).topography ∧
      delaunay? (levelDraft ridge).vertices = none ∧
      (levelDraft ridge).finish.elevation 1000 1 = 10 := by
  have memA : Lattice.point (0, 0) ∈ (levelDraft ridge).topography := by
    simp [levelDraft, ridge]
  have memB : Lattice.point (2000, 0) ∈ (levelDraft ridge).topography := by
    simp [levelDraft, ridge]
  have memC : Lattice.point (1000, 2) ∈ (levelDraft ridge).topography := by
    simp [levelDraft, ridge]
  have turned : 0 < doubleArea (Lattice.point (0, 0)) (Lattice.point (2000, 0))
      (Lattice.point (1000, 2)) := by
    rw [Lattice.doubleArea_point]
    norm_num [Lattice.area]
  have nothing : delaunay? (levelDraft ridge).vertices = none := by
    rw [vertices_ridge]
    exact Lattice.delaunay?_lattice_eq_none outerCorners_ridge decided_ridge (by decide)
  have apart : ∀ p q : ℤ × ℤ, p.1 < q.1 →
      Scalar.eps < (Lattice.point p).planarDistance (Lattice.point q) := by
    intro p q west
    have one : (1 : ℝ) ≤ |(q.1 : ℝ) - p.1| := by
      exact_mod_cast Int.one_le_abs (sub_ne_zero.2 west.ne')
    exact (Scalar.eps_lt_one.trans_le one).trans_le
      (Point.abs_x_le_planarDistance (Lattice.point p) (Lattice.point q))
  refine ⟨levelDraft_made (by decide), ?_, ⟨_, memA, _, memB, _, memC, turned.ne'⟩, ?_, nothing, ?_⟩
  · refine List.pairwise_map.2 (List.Pairwise.imp (fun {p q} west => apart p q west) ?_)
    decide
  · refine convexHull_subset_hull memA memB memC ((mem_convexHull_iff_spans turned).2 ?_)
    norm_num [Spans, doubleArea_spot, Lattice.point]
  · have none_ : (levelDraft ridge).finish.relief = none := by
      rw [Draft.finish_relief]
      exact Option.bind_eq_none_iff.2 fun places made =>
        absurd (nothing.symm.trans made) (Option.some_ne_none places).symm
    simp only [Scene.elevation, groundElevation, none_]
    rfl

end RoadNoise
