/-
# RoadNoise.Proofs.Sight -- the ground between the ends of a cut

A cut knows the ground only where it meets the sides of facets.  Over a facet the height of the
ground above the straight line changes at a steady rate, so where the facet stands above the line
it does so on the way to one of its sides or to an end of the cut.  That is why `Scene.hides` tells
whether the facets stand above the line, and over the hull of the points the ground is the facets
(`Draft.finish_hides`).  Where the cut leaves the triangles the elevation jumps to the default, and
no mark knows (`hollow_unseen`).
-/
import RoadNoise.Proofs.Marks
import RoadNoise.Proofs.Surface
import RoadNoise.Proofs.Whole

set_option autoImplicit false

namespace RoadNoise

open Triangulation

/-! ## Marks of the ground -/

namespace Scene

variable (s : Scene ℝ) (p q : Point ℝ)

theorem hides_iff : s.hides p q = true ↔
    ∃ m ∈ s.groundMarks p q, (s.cut p q).isInner m = true ∧
      (s.cut p q).lineElevation m.distance + Scalar.eps < m.position.z := by
  simp only [hides, Cut.groundAboveLine, Bool.not_eq_true', List.isEmpty_eq_false_iff_exists_mem,
    List.mem_filter, Bool.and_eq_true, decide_eq_true_eq]
  constructor
  · rintro ⟨m, isMark, ⟨isGround, inner⟩, above⟩
    exact ⟨m, (s.mem_groundMarks_iff p q m).1 ⟨isMark, isGround⟩, inner, above⟩
  · rintro ⟨m, ground, inner, above⟩
    obtain ⟨isMark, isGround⟩ := (s.mem_groundMarks_iff p q m).2 ground
    exact ⟨m, isMark, ⟨isGround, inner⟩, above⟩

theorem obstructed_iff : s.obstructed p q = true ↔
    (∃ b ∈ s.buildingGrid.along p q, s.blocks p q b = true) ∨ s.hides p q = true := by
  rw [obstructed, Bool.or_eq_true, obstructing_eq, Bool.not_eq_true',
    List.isEmpty_eq_false_iff_exists_mem]
  simp only [List.mem_filter]

/-- A mark of the ground stands at an end or at a crossing between the ends. -/
theorem exists_of_mem_groundMarks {m : Mark ℝ} (isMark : m ∈ s.groundMarks p q) :
    (m.distance = 0 ∧ m.position.z = s.elevation p.x p.y) ∨
    (m.distance = p.planarDistance q ∧ m.position.z = s.elevation q.x q.y) ∨
    ∃ r k, s.relief = some r ∧ k ∈ r.crossings p q ∧
      (Scalar.eps < k.position ∧ k.position < 1 - Scalar.eps) ∧
      m.distance = k.position * p.planarDistance q ∧ m.position.z = k.elevation := by
  obtain ⟨k, sounding, rfl⟩ := List.mem_map.1 isMark
  simp only [List.cons_append, List.mem_cons, List.mem_append, List.not_mem_nil,
    or_false] at sounding
  rcases sounding with rfl | inner | rfl
  · exact .inl ⟨by simp, rfl⟩
  · refine .inr (.inr ?_)
    split at inner
    · rename_i r made
      obtain ⟨crossing, bounds⟩ := List.mem_filter.1 inner
      simp only [Bool.and_eq_true, decide_eq_true_eq] at bounds
      exact ⟨r, k, made, crossing, bounds, rfl, rfl⟩
    · simp at inner
  · exact .inr (.inl ⟨by simp, rfl⟩)

theorem exists_mem_groundMarks {r : Relief ℝ} (made : s.relief = some r) {k : Sounding ℝ}
    (crossing : k ∈ r.crossings p q) (start : Scalar.eps < k.position)
    (stop : k.position < 1 - Scalar.eps) : ∃ m ∈ s.groundMarks p q,
      m.distance = k.position * p.planarDistance q ∧ m.position.z = k.elevation := by
  refine ⟨_, List.mem_map_of_mem (a := k) ?_, rfl, rfl⟩
  simp only [made, List.cons_append, List.mem_cons, List.mem_append, List.mem_filter,
    Bool.and_eq_true, decide_eq_true_eq]
  exact .inr (.inl ⟨crossing, start, stop⟩)

/-- Ground without a relief hides nothing. -/
theorem hides_of_no_relief (flat : s.relief = none) : s.hides p q = false := by
  rw [← Bool.not_eq_true, hides_iff]
  rintro ⟨m, isMark, inner, -⟩
  have bounds := (s.isInner_iff p q).1 inner
  have positive := Scalar.eps_pos
  rcases s.exists_of_mem_groundMarks p q isMark with ⟨start, -⟩ | ⟨stop, -⟩ | ⟨r, -, made, -⟩
  · linarith [bounds.1]
  · linarith [bounds.2]
  · simp [flat] at made

theorem lineElevation_eq (distinct : 0 < p.planarDistance q) (d : ℝ) :
    (s.cut p q).lineElevation d = p.z + d * ((q.z - p.z) / p.planarDistance q) := by
  have length : 0 < (s.cut p q).length := distinct
  rw [Cut.lineElevation, if_pos length, mul_div_assoc', div_mul_eq_mul_div]
  rfl

theorem lineElevation_mul (distinct : 0 < p.planarDistance q) (t : ℝ) :
    (s.cut p q).lineElevation (t * p.planarDistance q) = p.z + t * (q.z - p.z) := by
  rw [s.lineElevation_eq p q distinct]
  field_simp

theorem lineElevation_at (distinct : 0 < p.planarDistance q) (t : ℝ) :
    (s.cut p q).lineElevation (t * p.planarDistance q) = (Point.between p q t).z := by
  rw [s.lineElevation_mul p q distinct, Point.between, mul_comm]

variable {p q} in
/-- A place between the ends of a cut is at a share of its length. -/
theorem exists_share (distinct : 0 < p.planarDistance q) {x : ℝ}
    (inner : Scalar.eps < x ∧ x < p.planarDistance q - Scalar.eps) :
    ∃ t, x = t * p.planarDistance q ∧ 0 ≤ t ∧ t ≤ 1 := by
  have positive := Scalar.eps_pos
  refine ⟨x / p.planarDistance q, (div_mul_cancel₀ _ distinct.ne').symm, ?_, ?_⟩
  · exact div_nonneg (by linarith [inner.1]) distinct.le
  · exact (div_le_one distinct).2 (by linarith [inner.2])

/-- The elevation of the ground under the cut at a distance. -/
noncomputable def elevationAlong (d : ℝ) : ℝ :=
  s.elevation (Point.between p q (d / p.planarDistance q)).x
    (Point.between p q (d / p.planarDistance q)).y

/-- Ground without a relief is level, so it stands above the straight line nowhere if it does not
at the ends. -/
theorem hides_iff_of_no_relief (flat : s.relief = none) (distinct : 0 < p.planarDistance q)
    (start : s.elevation p.x p.y ≤ p.z + Scalar.eps)
    (stop : s.elevation q.x q.y ≤ q.z + Scalar.eps) : s.hides p q = true ↔
      ∃ x, (Scalar.eps < x ∧ x < p.planarDistance q - Scalar.eps) ∧
        (s.cut p q).lineElevation x + Scalar.eps < s.elevationAlong p q x := by
  have level : ∀ x y, s.elevation x y = s.defaults.elevation := fun x y => by
    simp [elevation, groundElevation, flat]
  rw [s.hides_of_no_relief p q flat]
  refine iff_of_false Bool.false_ne_true ?_
  rintro ⟨x, inner, above⟩
  obtain ⟨t, rfl, before, after⟩ := exists_share distinct inner
  rw [s.lineElevation_mul p q distinct, elevationAlong, level] at above
  rw [level] at start stop
  nlinarith

end Scene

/-! ## Facets above the straight line -/

/-- A sounding at this position is off the ends of the cut and counts. -/
def Counts (p q : Point ℝ) (t : ℝ) : Prop :=
  (Scalar.eps < t ∧ t < 1 - Scalar.eps) ∧
    Scalar.eps < t * p.planarDistance q ∧ t * p.planarDistance q < p.planarDistance q - Scalar.eps

theorem Scene.hides_iff_crossings (s : Scene ℝ) {p q : Point ℝ} (distinct : 0 < p.planarDistance q)
    {r : Relief ℝ} (made : s.relief = some r) : s.hides p q = true ↔
      ∃ k ∈ r.crossings p q, Counts p q k.position ∧
        (Point.between p q k.position).z + Scalar.eps < k.elevation := by
  have positive := Scalar.eps_pos
  rw [hides_iff]
  constructor
  · rintro ⟨m, isMark, inner, above⟩
    have bounds := (s.isInner_iff p q).1 inner
    rcases s.exists_of_mem_groundMarks p q isMark with
      ⟨start, -⟩ | ⟨stop, -⟩ | ⟨r', k, made', crossing, position, place, level⟩
    · linarith [bounds.1]
    · linarith [bounds.2]
    · obtain rfl := Option.some.inj (made'.symm.trans made)
      rw [place] at bounds
      rw [place, s.lineElevation_at p q distinct, level] at above
      exact ⟨k, crossing, ⟨position, bounds⟩, above⟩
  · rintro ⟨k, crossing, ⟨position, bounds⟩, above⟩
    obtain ⟨m, isMark, place, level⟩ :=
      s.exists_mem_groundMarks p q made crossing position.1 position.2
    refine ⟨m, isMark, (s.isInner_iff p q).2 (by rwa [place]), ?_⟩
    rwa [place, s.lineElevation_at p q distinct, level]

namespace Relief

variable {points : List (Point ℝ)} {r : Relief ℝ} {p q : Point ℝ}

/-- Over the ends of the cut, where no sounding counts, no facet stands above the straight
line. -/
def EndsClear (r : Relief ℝ) (p q : Point ℝ) : Prop :=
  ∀ f ∈ r.facets, ∀ t, (0 ≤ t ∧ t ≤ 1) → ¬Counts p q t → f.Covers (Point.between p q t) →
    f.plane (Point.between p q t) ≤ (Point.between p q t).z + Scalar.eps

/-- A facet that stands above the straight line is known from a crossing that does, and the other
way round. -/
theorem exists_crossing_iff (made : ofPoints? points = some r)
    (decided : Decided (verticesOf points)) (resolves : r.Resolves p q) (clear : r.EndsClear p q) :
    (∃ k ∈ r.crossings p q, Counts p q k.position ∧
      (Point.between p q k.position).z + Scalar.eps < k.elevation) ↔
    ∃ t, Counts p q t ∧ ∃ f ∈ r.facets, f.Covers (Point.between p q t) ∧
      (Point.between p q t).z + Scalar.eps < f.plane (Point.between p q t) := by
  have positive := Scalar.eps_pos
  constructor
  · rintro ⟨k, crossing, counts, above⟩
    obtain ⟨f, member, covers, level⟩ := exists_facet_of_mem_crossings made decided resolves
      crossing (by linarith [counts.1.1]) (by linarith [counts.1.2])
    rw [level] at above
    exact ⟨k.position, counts, f, member, covers, above⟩
  · rintro ⟨t, ⟨⟨start, stop⟩, -⟩, f, member, covers, above⟩
    obtain ⟨u, inside, covers, above, place⟩ := exists_crossing_above made decided resolves member
      (by linarith) (by linarith) covers above
    have counts : Counts p q u := by
      by_contra ends
      exact absurd (clear f member u inside ends covers) (not_le.2 above)
    obtain ⟨first, last⟩ := counts.1
    rcases place with rfl | rfl | ⟨k, crossing, rfl, level⟩
    · linarith
    · linarith
    · exact ⟨k, crossing, counts, by rwa [level]⟩

end Relief

namespace Draft

variable (d : Draft ℝ) {p q : Point ℝ} {r : Relief ℝ}

/-- Over the hull of the points the elevation of the ground is that of the facets, but for what
the tolerance of the lookup makes of their rise. -/
theorem abs_elevation_sub_le (decided : Decided d.vertices) (spread : Spread d.vertices)
    (outside : ∀ o, EmptyCircle d.vertices o → ∀ s ∈ outerCorners d.vertices, 0 < o.power s)
    (made : d.finish.relief = some r) {rise : ℝ} (rises : r.RisesBy rise) {x : Point ℝ}
    (inside : x.planar ∈ hull d.vertices) :
    (∃ f ∈ r.facets, f.Covers x) ∧ ∀ f ∈ r.facets, f.Covers x →
      |d.finish.elevation x.x x.y - f.plane x| ≤ 6 * Scalar.eps * rise := by
  obtain ⟨r', made', known⟩ := (d.finish_covers decided spread).1 outside
  obtain rfl := Option.some.inj (made'.symm.trans made)
  have surface : Relief.ofPoints? d.topography = some r' := d.finish_relief.symm.trans made
  have same : r'.vertices = d.vertices := (Relief.ofPoints?_eq_some surface).1
  have covered : ∀ y ∈ hull r'.vertices, ∃ f ∈ r'.facets, f.Covers (spot y) := by
    intro y inside
    rw [same] at inside
    exact Relief.exists_facet_of_covered surface decided (known y inside).1
  refine ⟨?_, fun f member covers => ?_⟩
  · obtain ⟨f, member, covers⟩ := covered _ (same ▸ inside)
    exact ⟨f, member, (Facet.covers_congr ⟨rfl, rfl⟩).1 covers⟩
  · exact Relief.abs_sub_plane_le surface decided rises covered (same ▸ inside) member covers
      (known _ inside).2

section Cut

variable (distinct : 0 < p.planarDistance q) (decided : Decided d.vertices)
  (made : d.finish.relief = some r) (resolves : r.Resolves p q) (clear : r.EndsClear p q)

include distinct decided made resolves clear

theorem hides_iff_facets : d.finish.hides p q = true ↔
    ∃ x, (Scalar.eps < x ∧ x < p.planarDistance q - Scalar.eps) ∧
      ∃ f ∈ r.facets, f.Covers (Point.between p q (x / p.planarDistance q)) ∧
        (d.finish.cut p q).lineElevation x + Scalar.eps
          < f.plane (Point.between p q (x / p.planarDistance q)) := by
  have surface : Relief.ofPoints? d.topography = some r := d.finish_relief.symm.trans made
  rw [d.finish.hides_iff_crossings distinct made,
    Relief.exists_crossing_iff surface decided resolves clear]
  constructor
  · rintro ⟨t, ⟨-, inner⟩, f, member, covers, above⟩
    refine ⟨t * p.planarDistance q, inner, f, member, ?_⟩
    rw [d.finish.lineElevation_at p q distinct, mul_div_cancel_right₀ _ distinct.ne']
    exact ⟨covers, above⟩
  · rintro ⟨x, inner, f, member, covers, above⟩
    obtain ⟨t, rfl, bounds⟩ := Scene.exists_share distinct inner
    rw [d.finish.lineElevation_at p q distinct, mul_div_cancel_right₀ _ distinct.ne'] at above
    rw [mul_div_cancel_right₀ _ distinct.ne'] at covers
    refine ⟨t, ?_, f, member, covers, above⟩
    -- a place that does not count is over an end of the cut, and that is clear
    by_contra ends
    exact absurd (clear f member t bounds ends covers) (not_le.2 above)

end Cut

/-- What `hides` tells about the ground.  Without a relief it tells whether the ground stands
above the straight line.  With one it tells whether the facets do, and that is whether the ground
over the hull does, but for what the tolerance of the lookup makes of its rise. -/
theorem finish_hides (distinct : 0 < p.planarDistance q) :
    (d.finish.relief = none → d.finish.elevation p.x p.y ≤ p.z + Scalar.eps →
      d.finish.elevation q.x q.y ≤ q.z + Scalar.eps →
      (d.finish.hides p q = true ↔
        ∃ x, (Scalar.eps < x ∧ x < p.planarDistance q - Scalar.eps) ∧
          (d.finish.cut p q).lineElevation x + Scalar.eps < d.finish.elevationAlong p q x)) ∧
    ∀ r, d.finish.relief = some r → Decided d.vertices → r.Resolves p q → r.EndsClear p q →
      (d.finish.hides p q = true ↔
        ∃ x, (Scalar.eps < x ∧ x < p.planarDistance q - Scalar.eps) ∧
          ∃ f ∈ r.facets, f.Covers (Point.between p q (x / p.planarDistance q)) ∧
            (d.finish.cut p q).lineElevation x + Scalar.eps
              < f.plane (Point.between p q (x / p.planarDistance q))) ∧
      (Spread d.vertices →
        (∀ o, EmptyCircle d.vertices o → ∀ s ∈ outerCorners d.vertices, 0 < o.power s) →
        ∀ rise, r.RisesBy rise →
          (d.finish.hides p q = true →
            ∃ x, (Scalar.eps < x ∧ x < p.planarDistance q - Scalar.eps) ∧
              (Point.between p q (x / p.planarDistance q)).planar ∈ hull d.vertices ∧
              (d.finish.cut p q).lineElevation x + Scalar.eps - 6 * Scalar.eps * rise
                < d.finish.elevationAlong p q x) ∧
          ((∃ x, (Scalar.eps < x ∧ x < p.planarDistance q - Scalar.eps) ∧
              (Point.between p q (x / p.planarDistance q)).planar ∈ hull d.vertices ∧
              (d.finish.cut p q).lineElevation x + Scalar.eps + 6 * Scalar.eps * rise
                < d.finish.elevationAlong p q x) →
            d.finish.hides p q = true)) := by
  refine ⟨fun flat => d.finish.hides_iff_of_no_relief p q flat distinct,
    fun r made decided resolves clear => ?_⟩
  have facets := d.hides_iff_facets distinct decided made resolves clear
  have surface : Relief.ofPoints? d.topography = some r := d.finish_relief.symm.trans made
  refine ⟨facets, fun spread outside rise rises => ⟨fun hidden => ?_, ?_⟩⟩
  · obtain ⟨x, inner, f, member, covers, above⟩ := facets.1 hidden
    have inside := Relief.planar_mem_hull_of_covers surface decided member covers
    rw [(Relief.ofPoints?_eq_some surface).1] at inside
    have close :=
      (d.abs_elevation_sub_le decided spread outside made rises inside).2 f member covers
    refine ⟨x, inner, inside, ?_⟩
    rw [Scene.elevationAlong]
    linarith [(abs_le.1 close).1]
  · rintro ⟨x, inner, inside, above⟩
    obtain ⟨⟨f, member, covers⟩, close⟩ :=
      d.abs_elevation_sub_le decided spread outside made rises inside
    rw [Scene.elevationAlong] at above
    exact facets.2 ⟨x, inner, f, member, covers, by linarith [(abs_le.1 (close f member covers)).2]⟩

end Draft

/-! ## A cut over a hill -/

/-- Four points of a hill that has its crest from south to north. -/
def hillPoints : List ((ℤ × ℤ) × ℤ) := [((-20, 0), 5), ((0, -15), 10), ((0, 17), 10), ((20, 0), 5)]

/-- The hill, in the midst of ground at elevation zero. -/
noncomputable def hill : Draft ℝ :=
  { Draft.empty with topography := hillPoints.map Lattice.raised, defaults := ⟨0, 0, 0.1⟩ }

theorem outerCorners_hill : outerCorners ((hillPoints.map Prod.fst).map Lattice.point)
    = [(-2000, -1999), (2000, -1999), (0, 2001)].map Lattice.point :=
  Lattice.outerCorners_lattice (b := ⟨-20, -15, 20, 17⟩) rfl 0 1 rfl rfl rfl

theorem vertices_hill : hill.vertices = hillPoints.map Lattice.raised :=
  Lattice.verticesOf_raised (by decide)

theorem decided_hill : Decided hill.vertices := by
  rw [vertices_hill]
  exact Lattice.decided_raised (Lattice.decided_of_lattice outerCorners_hill (by decide +kernel))

/-- The two facets meet in the crest. -/
theorem plane_hill {r : Relief ℝ} (made : hill.finish.relief = some r) {f : Facet ℝ}
    (member : f ∈ r.facets) :
    (∀ x, f.plane x = 10 + x.x / 4) ∨ ∀ x, f.plane x = 10 - x.x / 4 := by
  have surface : Relief.ofPoints? hill.topography = some r := hill.finish_relief.symm.trans made
  obtain ⟨a, entryA, b, entryB, c, entryC, rfl, turned, empty⟩ :=
    Lattice.empty_of_mem_facets surface vertices_hill (vertices_hill ▸ decided_hill) member
  have corners : ∀ a ∈ hillPoints, ∀ b ∈ hillPoints, ∀ c ∈ hillPoints,
      0 < Lattice.area a.1 b.1 c.1 → (∀ e ∈ hillPoints, Lattice.inCircle a.1 b.1 c.1 e.1 ≤ 0) →
      (a, b, c) ∈ [(((-20, 0), 5), ((0, -15), 10), ((0, 17), 10)),
        (((0, -15), 10), ((0, 17), 10), ((-20, 0), 5)),
        (((0, 17), 10), ((-20, 0), 5), ((0, -15), 10)),
        (((20, 0), 5), ((0, 17), 10), ((0, -15), 10)),
        (((0, 17), 10), ((0, -15), 10), ((20, 0), 5)),
        (((0, -15), 10), ((20, 0), 5), ((0, 17), 10))] := by
    decide
  have west : ∀ x, (⟨Lattice.raised ((-20, 0), 5), Lattice.raised ((0, -15), 10),
      Lattice.raised ((0, 17), 10)⟩ : Facet ℝ).plane x = 10 + x.x / 4 := by
    intro x
    norm_num [Facet.plane, Facet.area, doubleArea, Lattice.raised, Lattice.point, Point.raisedTo]
    ring
  have east : ∀ x, (⟨Lattice.raised ((20, 0), 5), Lattice.raised ((0, 17), 10),
      Lattice.raised ((0, -15), 10)⟩ : Facet ℝ).plane x = 10 - x.x / 4 := by
    intro x
    norm_num [Facet.plane, Facet.area, doubleArea, Lattice.raised, Lattice.point, Point.raisedTo]
    ring
  have known := corners a entryA b entryB c entryC turned empty
  simp only [List.mem_cons, Prod.mk.injEq, List.not_mem_nil, or_false] at known
  rcases known with ⟨rfl, rfl, rfl⟩ | ⟨rfl, rfl, rfl⟩ | ⟨rfl, rfl, rfl⟩ | ⟨rfl, rfl, rfl⟩
    | ⟨rfl, rfl, rfl⟩ | ⟨rfl, rfl, rfl⟩
  · exact .inl west
  · refine .inl fun x => ?_
    rw [← Facet.plane_turn, ← Facet.plane_turn]
    exact west x
  · refine .inl fun x => ?_
    rw [← Facet.plane_turn]
    exact west x
  · exact .inr east
  · refine .inr fun x => ?_
    rw [← Facet.plane_turn, ← Facet.plane_turn]
    exact east x
  · refine .inr fun x => ?_
    rw [← Facet.plane_turn]
    exact east x

/-- A metre above the ground, off the hill. -/
def westFoot : Point ℝ := ⟨-30.0, 1, 1⟩

def eastFoot : Point ℝ := ⟨30.0, 1, 3.0⟩

theorem length_eq_sixty : westFoot.planarDistance eastFoot = 60 := by
  rw [Point.planarDistance_eq]
  norm_num [westFoot, eastFoot]

theorem abs_le_of_mem_vertices_hill {v : Point ℝ} (vertex : v ∈ hill.vertices) :
    |v.x| ≤ 20 ∧ |v.y| ≤ 17 := by
  rw [vertices_hill] at vertex
  obtain ⟨e, entry, rfl⟩ := List.mem_map.1 vertex
  simp only [hillPoints, List.mem_cons, List.not_mem_nil, or_false] at entry
  rcases entry with rfl | rfl | rfl | rfl <;>
    norm_num [Lattice.raised, Lattice.point, Point.raisedTo]

section Hill

variable {r : Relief ℝ} (made : hill.finish.relief = some r)

include made

theorem vertices_of_hill : r.vertices = hill.vertices :=
  (Relief.ofPoints?_eq_some (hill.finish_relief.symm.trans made)).1

theorem hill_resolves : r.Resolves westFoot eastFoot := by
  refine Relief.resolves_of_whole (hill.finish_relief.symm.trans made) decided_hill ?_ ?_
  · rw [vertices_of_hill made, vertices_hill]
    have west : Whole westFoot := ⟨⟨-30, by norm_num [westFoot]⟩, 1, by simp [westFoot]⟩
    have east : Whole eastFoot := ⟨⟨30, by norm_num [eastFoot]⟩, 1, by simp [eastFoot]⟩
    exact List.forall_mem_cons.2 ⟨west, List.forall_mem_cons.2 ⟨east,
      List.forall_mem_map.2 fun e _ => Lattice.whole_raised e⟩⟩
  · have bounds : ∀ v ∈ westFoot :: eastFoot :: r.vertices, |v.x| ≤ 30 ∧ |v.y| ≤ 17 := by
      rw [vertices_of_hill made]
      refine List.forall_mem_cons.2 ⟨by norm_num [westFoot], List.forall_mem_cons.2
        ⟨by norm_num [eastFoot], ?_⟩⟩
      intro v vertex
      have known := abs_le_of_mem_vertices_hill vertex
      exact ⟨known.1.trans (by norm_num), known.2⟩
    intro v first w second
    obtain ⟨x, y⟩ := bounds v first
    obtain ⟨x', y'⟩ := bounds w second
    rw [abs_le] at x y x' y'
    rw [Point.planarDistance_eq, Real.sqrt_le_left (by norm_num)]
    nlinarith

theorem hill_rises : r.RisesBy 10 := by
  intro f member v first w second
  rw [vertices_of_hill made] at first second
  have boundV := abs_le.1 (abs_le_of_mem_vertices_hill first).1
  have boundW := abs_le.1 (abs_le_of_mem_vertices_hill second).1
  rcases plane_hill made member with plane | plane
  · rw [plane, plane]
    linarith
  · rw [plane, plane]
    linarith

/-- The ends of the cut are off the hill. -/
theorem hill_clear : r.EndsClear westFoot eastFoot := by
  intro f member t bounds ends covers
  exfalso
  have inside := Relief.planar_mem_hull_of_covers (hill.finish_relief.symm.trans made) decided_hill
    member covers
  have strip : Convex ℝ (Set.Icc (-20 : ℝ) 20 ×ˢ (Set.univ : Set ℝ)) :=
    (convex_Icc _ _).prod convex_univ
  have onHill : (Point.between westFoot eastFoot t).x ∈ Set.Icc (-20 : ℝ) 20 := by
    refine (convexHull_min ?_ strip inside).1
    rintro _ ⟨v, vertex, rfl⟩
    rw [Set.mem_ofPred_eq, vertices_of_hill made] at vertex
    exact ⟨abs_le.1 (abs_le_of_mem_vertices_hill vertex).1, trivial⟩
  simp only [Point.between, westFoot, eastFoot, Set.mem_Icc] at onHill
  refine ends ⟨?_, ?_⟩
  · rw [Scalar.eps_eq]
    constructor <;> linarith [onHill.1, onHill.2]
  · rw [length_eq_sixty, Scalar.eps_eq]
    constructor <;> linarith [onHill.1, onHill.2]

end Hill

theorem spread_hill : Spread hill.vertices := by
  rw [vertices_hill]
  exact Lattice.spread_raised (Lattice.spread_of_lattice (by decide))

theorem outside_hill :
    ∀ o, EmptyCircle hill.vertices o → ∀ s ∈ outerCorners hill.vertices, 0 < o.power s := by
  rw [vertices_hill]
  exact Lattice.clear_raised (Lattice.clear_of_lattice outerCorners_hill (by decide))

/-- The middle of the cut is the middle of the crest. -/
theorem crest_mem_hull :
    (Point.between westFoot eastFoot (30 / 60)).planar ∈ hull hill.vertices := by
  have south : Lattice.raised ((0, -15), 10) ∈ hill.vertices := by
    simp [vertices_hill, hillPoints]
  have north : Lattice.raised ((0, 17), 10) ∈ hill.vertices := by
    simp [vertices_hill, hillPoints]
  have middle := between_mem_hull (planar_mem_hull south) (planar_mem_hull north)
    (by norm_num : (0 : ℝ) ≤ 1 / 2) (by norm_num)
  convert middle using 1
  norm_num [Point.between, Point.planar, westFoot, eastFoot, Lattice.raised, Lattice.point,
    Point.raisedTo]

theorem crest_above {r : Relief ℝ} (made : hill.finish.relief = some r) :
    (hill.finish.cut westFoot eastFoot).lineElevation 30 + Scalar.eps + 6 * Scalar.eps * 10
      < hill.finish.elevationAlong westFoot eastFoot 30 := by
  obtain ⟨⟨f, member, covers⟩, near⟩ := hill.abs_elevation_sub_le decided_hill spread_hill
    outside_hill made (hill_rises made) crest_mem_hull
  have close := abs_le.1 (near f member covers)
  have level : f.plane (Point.between westFoot eastFoot (30 / 60)) = 10 := by
    rcases plane_hill made member with plane | plane <;>
      norm_num [plane, Point.between, westFoot, eastFoot]
  have distinct : 0 < westFoot.planarDistance eastFoot := by norm_num [length_eq_sixty]
  rw [level, Scalar.eps_eq] at close
  rw [Scene.lineElevation_eq _ _ _ distinct, Scene.elevationAlong, length_eq_sixty, Scalar.eps_eq]
  norm_num [westFoot, eastFoot] at close ⊢
  linarith [close.1]

/-- From one foot of the hill to the other the crest is in the way, eight metres above the
straight line. -/
theorem hill_hides : ∃ r, hill.Made ∧ 0 < westFoot.planarDistance eastFoot ∧
    Decided hill.vertices ∧ hill.finish.relief = some r ∧ r.Resolves westFoot eastFoot ∧
    r.EndsClear westFoot eastFoot ∧ Spread hill.vertices ∧
    (∀ o, EmptyCircle hill.vertices o → ∀ s ∈ outerCorners hill.vertices, 0 < o.power s) ∧
    r.RisesBy 10 ∧
    (hill.finish.cut westFoot eastFoot).lineElevation 30 + Scalar.eps + 6 * Scalar.eps * 10
      < hill.finish.elevationAlong westFoot eastFoot 30 ∧
    hill.finish.hides westFoot eastFoot = true := by
  obtain ⟨r, made, -⟩ := (hill.finish_covers decided_hill spread_hill).1 outside_hill
  have distinct : 0 < westFoot.planarDistance eastFoot := by norm_num [length_eq_sixty]
  have resolves := hill_resolves made
  have clear := hill_clear made
  have sight := ((hill.finish_hides distinct).2 r made decided_hill resolves clear).2 spread_hill
    outside_hill 10 (hill_rises made)
  refine ⟨r, .ofPoints (by simp [hillPoints]) 0, distinct, decided_hill, made, resolves, clear,
    spread_hill, outside_hill, hill_rises made, crest_above made, sight.2 ⟨30, ?_, ?_,
    crest_above made⟩⟩
  · rw [length_eq_sixty, Scalar.eps_eq]
    norm_num
  · rw [length_eq_sixty]
    exact crest_mem_hull

/-! ## A cut that leaves the triangles -/

/-- Level ground at elevation zero over a triangle, in the midst of higher ground. -/
noncomputable def hollow (elevation : ℝ) : Draft ℝ :=
  { Draft.empty with
    topography := [⟨0, -50.0, 0⟩, ⟨0, 50.0, 0⟩, ⟨-50.0, 0, 0⟩]
    defaults := ⟨0, elevation, 0.1⟩ }

theorem hollow_made (elevation : ℝ) : (hollow elevation).Made := .ofPoints (by simp) elevation

/-- Every corner of its facets is one of the three points. -/
theorem corners_hollow {elevation : ℝ} {r : Relief ℝ}
    (made : (hollow elevation).finish.relief = some r) {k : Nat} {f : Facet ℝ}
    (entry : r.facets[k]? = some f) :
    ∀ v ∈ [f.a, f.b, f.c], (-50 ≤ v.x ∧ v.x ≤ 0) ∧ v.z = 0 := by
  have made : Relief.ofPoints? (hollow elevation).topography = some r := made
  obtain ⟨first, second, third⟩ := Relief.corners_mem made entry
  have known : ∀ v ∈ (hollow elevation).topography, (-50 ≤ v.x ∧ v.x ≤ 0) ∧ v.z = 0 := by
    intro v point
    simp only [hollow, List.mem_cons, List.not_mem_nil, or_false] at point
    rcases point with rfl | rfl | rfl <;> norm_num
  intro v corner
  simp only [List.mem_cons, List.not_mem_nil, or_false] at corner
  rcases corner with rfl | rfl | rfl
  · exact known _ first
  · exact known _ second
  · exact known _ third

theorem elevation_hollow_of_east (elevation : ℝ) {x y : ℝ} (east : 1 ≤ x) :
    (hollow elevation).finish.elevation x y = elevation := by
  cases known : (hollow elevation).finish.relief.bind (·.elevation? x y) with
  | none => simp only [Scene.elevation, groundElevation, known]; rfl
  | some z =>
      exfalso
      obtain ⟨r, made, found⟩ := Option.bind_eq_some_iff.1 known
      obtain ⟨k, f, entry, covers⟩ := Relief.exists_facet_of_elevation? found
      obtain ⟨wa, wb, wc, balanced, ⟨lowA, lowB, lowC⟩, -⟩ :=
        Facet.elevation?_eq_some_iff.1 covers
      obtain ⟨-, place, -⟩ := Facet.balance_spec balanced
      -- no weight is below the tolerance, so the place is hardly east of the corners
      have reach : ∀ w : ℝ, -Scalar.eps ≤ w → ∀ v : Point ℝ, -50 ≤ v.x ∧ v.x ≤ 0 →
          w * v.x ≤ 50 * Scalar.eps := by
        intro w low v corner
        nlinarith [Scalar.eps_pos]
      have corners := corners_hollow made entry
      have first := reach wa lowA f.a (corners f.a (by simp)).1
      have second := reach wb lowB f.b (corners f.b (by simp)).1
      have third := reach wc lowC f.c (corners f.c (by simp)).1
      have small : (150 : ℝ) * Scalar.eps < 1 := by
        rw [Scalar.eps_eq]
        norm_num
      simp only at place
      linarith

/-- An edge between two points at elevation zero is met at elevation zero. -/
theorem elevation_eq_zero_of_mem_soundings {p q a b : Point ℝ} (levelA : a.z = 0)
    (levelB : b.z = 0) {k : Sounding ℝ} (met : k ∈ soundings p q a b) : k.elevation = 0 := by
  unfold soundings at met
  split at met
  · obtain rfl := List.mem_singleton.1 met
    simp [levelA, levelB]
  · obtain ⟨t, -, rfl⟩ := List.mem_map.1 met
    simp [levelA, levelB]
  · simp at met

theorem elevation_of_mem_crossings_hollow {elevation : ℝ} {p q : Point ℝ} {r : Relief ℝ}
    (made : (hollow elevation).finish.relief = some r) {k : Sounding ℝ}
    (crossing : k ∈ r.crossings p q) : k.elevation = 0 := by
  obtain ⟨i, f, entry, ⟨a, b⟩, side, met⟩ := Relief.exists_of_mem_crossings crossing
  have level := corners_hollow made entry
  simp only [Facet.sides, List.mem_cons, Prod.mk.injEq, List.not_mem_nil, or_false] at side
  refine elevation_eq_zero_of_mem_soundings ?_ ?_ met <;>
    rcases side with ⟨rfl, rfl⟩ | ⟨rfl, rfl⟩ | ⟨rfl, rfl⟩ <;>
    exact (level _ (by simp)).2

theorem length_eq_hundred : Point.planarDistance (⟨-10, 0, 1⟩ : Point ℝ) ⟨90, 0, 11⟩ = 100 := by
  rw [Point.planarDistance_eq]
  norm_num

theorem hollow_hides (elevation : ℝ) :
    (hollow elevation).finish.hides ⟨-10, 0, 1⟩ ⟨90, 0, 11⟩ = false := by
  rw [← Bool.not_eq_true, Scene.hides_iff]
  rintro ⟨m, isMark, inner, above⟩
  rw [Scene.isInner_iff, length_eq_hundred] at inner
  rw [Scene.lineElevation_eq _ _ _ (by norm_num [length_eq_hundred]), length_eq_hundred] at above
  have positive := Scalar.eps_pos
  have marked := Scene.exists_of_mem_groundMarks _ _ _ isMark
  rw [length_eq_hundred] at marked
  rcases marked with ⟨start, -⟩ | ⟨stop, -⟩ | ⟨r, k, made, crossing, -, -, level⟩
  · linarith
  · linarith
  · rw [level, elevation_of_mem_crossings_hollow made crossing] at above
    norm_num at above
    linarith

/-- Ten metres of ground stand in the way sixty metres out, and no mark knows. -/
theorem hollow_unseen :
    (hollow 10).Made ∧ (hollow 10).finish.hides ⟨-10, 0, 1⟩ ⟨90, 0, 11⟩ = false ∧
      ∃ d, (Scalar.eps < d ∧ d < Point.planarDistance ⟨-10, 0, 1⟩ ⟨90, 0, 11⟩ - Scalar.eps) ∧
        ((hollow 10).finish.cut ⟨-10, 0, 1⟩ ⟨90, 0, 11⟩).lineElevation d + Scalar.eps
          < (hollow 10).finish.elevationAlong ⟨-10, 0, 1⟩ ⟨90, 0, 11⟩ d := by
  refine ⟨hollow_made 10, hollow_hides 10, 60, ?_, ?_⟩
  · rw [length_eq_hundred, Scalar.eps_eq]
    norm_num
  · rw [Scene.lineElevation_eq _ _ _ (by norm_num [length_eq_hundred]), Scene.elevationAlong,
      length_eq_hundred, elevation_hollow_of_east 10 (by norm_num [Point.between]), Scalar.eps_eq]
    norm_num

end RoadNoise
