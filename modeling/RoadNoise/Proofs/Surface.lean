/-
# RoadNoise.Proofs.Surface -- the ground and the facets under it

The elevation of a place is looked up in the first facet that accepts the place, and a facet
accepts places a little beyond its sides.  Over the hull of the vertices that makes little
difference: such a place is so near to the facet that accepts it that on the way there the
surface of the facets hardly rises (`Relief.abs_sub_plane_le`).  On the way it goes from facet
to facet, and where it passes from one to the next the two have one elevation
(`abs_sub_le_of_pieces`).
-/
import RoadNoise.Proofs.Facets

set_option autoImplicit false

namespace RoadNoise

open Triangulation Filter Topology

/-! ## Heights along a way -/

/-- Just after a place some piece is met again and again. -/
theorem exists_frequently_mem {β : Type} {l : List β} {here : β → Set ℝ} {t u : ℝ} (later : t < u)
    (covered : ∀ s ∈ Set.Ioc t u, ∃ b ∈ l, s ∈ here b) : ∃ b ∈ l, ∃ᶠ s in 𝓝[>] t, s ∈ here b := by
  by_contra! rare
  have never : ∀ᶠ s in 𝓝[>] t, ∀ b ∈ {b | b ∈ l}, s ∉ here b :=
    (eventually_all_finite l.finite_toSet).2 rare
  obtain ⟨s, out, after⟩ := (never.and (Ioc_mem_nhdsGT later)).exists
  obtain ⟨b, member, isHere⟩ := covered s after
  exact out b member isHere

/-- A way is cut into pieces.  Over each the height changes at a steady rate, and where pieces
meet they have one height.  Then the height changes no more from end to end than it would at
the greatest rate. -/
theorem abs_sub_le_of_pieces {β : Type} {l : List β} {here : β → Set ℝ} {base rate : β → ℝ}
    {m : ℝ} (closed : ∀ b ∈ l, IsClosed (here b)) (slow : ∀ b ∈ l, |rate b| ≤ m)
    (agree : ∀ b ∈ l, ∀ c ∈ l, ∀ t, t ∈ here b → t ∈ here c →
      base b + t * rate b = base c + t * rate c)
    (covered : ∀ t ∈ Set.Icc (0 : ℝ) 1, ∃ b ∈ l, t ∈ here b) {b c : β} (first : b ∈ l)
    (last : c ∈ l) (start : 0 ∈ here b) (stop : 1 ∈ here c) :
    |base c + rate c - base b| ≤ m := by
  let reached : Set ℝ :=
    ⋃ d ∈ {d | d ∈ l}, here d ∩ {t | |base d + t * rate d - base b| ≤ m * t}
  have isClosed : IsClosed reached := by
    refine l.finite_toSet.isClosed_biUnion fun d member => (closed d member).inter ?_
    exact isClosed_le (by fun_prop) (by fun_prop)
  have every : Set.Icc 0 1 ⊆ reached := by
    refine (isClosed.inter isClosed_Icc).Icc_subset_of_forall_exists_gt ?_ ?_
    · exact Set.mem_biUnion (show b ∈ {d | d ∈ l} from first) ⟨start, by simp⟩
    · rintro t ⟨known, low, high⟩ u (beyond : t < u)
      -- some piece is met again and again just after `t`, so it has `t` as well
      have next : t < min u 1 := lt_min beyond high
      obtain ⟨d, member, often⟩ := exists_frequently_mem next fun s ⟨after, before⟩ =>
        covered s ⟨low.trans after.le, before.trans (min_le_right _ _)⟩
      have isHere : t ∈ here d :=
        (closed d member).mem_of_frequently_of_tendsto often
          (tendsto_id.mono_left nhdsWithin_le_nhds)
      obtain ⟨e, memberE, isThere, near⟩ := Set.mem_iUnion₂.1 known
      obtain ⟨s, stays, after, before⟩ := (often.and_eventually (Ioc_mem_nhdsGT next)).exists
      refine ⟨s, Set.mem_biUnion (show d ∈ {d | d ∈ l} from member) ⟨stays, ?_⟩, after,
        before.trans (min_le_left _ _)⟩
      have same := agree d member e memberE t isHere isThere
      have near : |base e + t * rate e - base b| ≤ m * t := near
      rw [← same] at near
      have rise : |(s - t) * rate d| ≤ m * (s - t) := by
        rw [abs_mul, abs_of_pos (sub_pos.2 after), mul_comm]
        exact mul_le_mul_of_nonneg_right (slow d member) (sub_pos.2 after).le
      calc |base d + s * rate d - base b|
          = |(base d + t * rate d - base b) + (s - t) * rate d| := by ring_nf
        _ ≤ |base d + t * rate d - base b| + |(s - t) * rate d| := abs_add_le _ _
        _ ≤ m * t + m * (s - t) := add_le_add near rise
        _ = m * s := by ring
  obtain ⟨d, member, isThere, near⟩ := Set.mem_iUnion₂.1 (every ⟨zero_le_one, le_rfl⟩)
  have same := agree d member c last 1 isThere stop
  simp only [Set.mem_ofPred_eq, one_mul, mul_one] at near same
  rwa [same] at near

/-! ## Planes over the hull -/

theorem planar_between (x y : Point ℝ) (t : ℝ) :
    (Point.between x y t).planar = (1 - t) • x.planar + t • y.planar := by
  ext
  · simp only [Point.between, Point.planar, Prod.fst_add, Prod.smul_fst, smul_eq_mul]
    ring
  · simp only [Point.between, Point.planar, Prod.snd_add, Prod.smul_snd, smul_eq_mul]
    ring

theorem between_mem_hull {points : List (Point ℝ)} {x y : Point ℝ} (first : x.planar ∈ hull points)
    (second : y.planar ∈ hull points) {t : ℝ} (start : 0 ≤ t) (stop : t ≤ 1) :
    (Point.between x y t).planar ∈ hull points := by
  rw [planar_between]
  exact (convex_convexHull ℝ _) first second (by linarith) start (by ring)

namespace Facet

variable {f : Facet ℝ}

theorem isClosed_covers (f : Facet ℝ) (x y : Point ℝ) :
    IsClosed {t | f.Covers (Point.between x y t)} :=
  (isClosed_le continuous_const (continuous_doubleArea_between _ _ x y)).inter
    ((isClosed_le continuous_const (continuous_doubleArea_between _ _ x y)).inter
      (isClosed_le continuous_const (continuous_doubleArea_between _ _ x y)))

theorem plane_planar (x : Point ℝ) : f.plane (spot x.planar) = f.plane x :=
  plane_congr ⟨rfl, rfl⟩

theorem plane_combo (x y : ℝ × ℝ) {u v : ℝ} (whole : u + v = 1) :
    f.plane (spot (u • x + v • y)) = u * f.plane (spot x) + v * f.plane (spot y) := by
  simp only [plane, doubleArea_combo _ _ x y whole]
  ring

theorem convex_le (f : Facet ℝ) (c : ℝ) : Convex ℝ {x | f.plane (spot x) ≤ c} := by
  intro x low y low' u v start start' whole
  rw [Set.mem_ofPred_eq] at *
  calc f.plane (spot (u • x + v • y)) = u * f.plane (spot x) + v * f.plane (spot y) :=
        plane_combo x y whole
    _ ≤ u * c + v * c :=
        add_le_add (mul_le_mul_of_nonneg_left low start) (mul_le_mul_of_nonneg_left low' start')
    _ = c := by rw [← add_mul, whole, one_mul]

theorem convex_ge (f : Facet ℝ) (c : ℝ) : Convex ℝ {x | c ≤ f.plane (spot x)} := by
  intro x high y high' u v start start' whole
  rw [Set.mem_ofPred_eq] at *
  calc c = u * c + v * c := by rw [← add_mul, whole, one_mul]
    _ ≤ u * f.plane (spot x) + v * f.plane (spot y) :=
        add_le_add (mul_le_mul_of_nonneg_left high start) (mul_le_mul_of_nonneg_left high' start')
    _ = f.plane (spot (u • x + v • y)) := (plane_combo x y whole).symm

end Facet

namespace Relief

variable {points : List (Point ℝ)} {r : Relief ℝ}

/-- The plane of no facet rises by more than this from one vertex to another. -/
def RisesBy (r : Relief ℝ) (rise : ℝ) : Prop :=
  ∀ f ∈ r.facets, ∀ v ∈ r.vertices, ∀ w ∈ r.vertices, f.plane v ≤ f.plane w + rise

/-- Then none does from one place of the hull to another. -/
theorem RisesBy.abs_sub_le {rise : ℝ} (rises : r.RisesBy rise) {f : Facet ℝ}
    (member : f ∈ r.facets) {x y : Point ℝ} (first : x.planar ∈ hull r.vertices)
    (second : y.planar ∈ hull r.vertices) : |f.plane x - f.plane y| ≤ rise := by
  have fromVertex : ∀ v ∈ r.vertices, ∀ y ∈ hull r.vertices,
      f.plane v - rise ≤ f.plane (spot y) := by
    refine fun v vertex y inside => convexHull_min ?_ (f.convex_ge (f.plane v - rise)) inside
    rintro _ ⟨w, vertex', rfl⟩
    rw [Set.mem_ofPred_eq, Facet.plane_planar]
    exact sub_le_iff_le_add.2 (rises f member v vertex w vertex')
  have fromPlace : ∀ x ∈ hull r.vertices, ∀ y ∈ hull r.vertices,
      f.plane (spot x) ≤ f.plane (spot y) + rise := by
    refine fun x inside y inside' =>
      convexHull_min ?_ (f.convex_le (f.plane (spot y) + rise)) inside
    rintro _ ⟨v, vertex, rfl⟩
    rw [Set.mem_ofPred_eq, Facet.plane_planar]
    exact sub_le_iff_le_add.1 (fromVertex v vertex y inside')
  have up := fromPlace _ first _ second
  have down := fromPlace _ second _ first
  rw [Facet.plane_planar, Facet.plane_planar] at up down
  exact abs_le.2 ⟨by linarith, by linarith⟩

/-- A place that a triangle has is covered by a facet. -/
theorem exists_facet_of_covered (made : ofPoints? points = some r)
    (decided : Decided (verticesOf points)) {x : ℝ × ℝ}
    (covered : Covered r.vertices r.triangles x) : ∃ f ∈ r.facets, f.Covers (spot x) := by
  obtain ⟨-, -, facets, -⟩ := ofPoints?_eq_some made
  obtain ⟨t, entry, a, b, c, first, second, third, inside⟩ := covered
  have member : (⟨a, b, c⟩ : Facet ℝ) ∈ r.facets := by
    rw [facets, List.mem_toArray]
    exact List.mem_filterMap.2 ⟨t, entry, facetOf?_eq_some_iff.2 ⟨first, second, third⟩⟩
  have turned := Scalar.eps_pos.trans (solid_of_mem_facets made decided member)
  exact ⟨_, member, (mem_convexHull_iff_spans turned).1 inside⟩

section Made

variable (made : ofPoints? points = some r) (decided : Decided (verticesOf points))

include made decided

theorem planar_mem_hull_of_covers {f : Facet ℝ} (member : f ∈ r.facets) {x : Point ℝ}
    (covers : f.Covers x) : x.planar ∈ hull r.vertices := by
  have turned := Scalar.eps_pos.trans (solid_of_mem_facets made decided member)
  obtain ⟨first, second, third⟩ := corners_mem_vertices made decided member
  refine convexHull_subset_hull first second third ((mem_convexHull_iff_spans turned).2 ?_)
  exact (Facet.covers_congr ⟨rfl, rfl⟩).1 covers

/-- A facet covers a place near to one that it accepts, on the way to its middle. -/
theorem exists_covers_nearby {f : Facet ℝ} (member : f ∈ r.facets) {x : Point ℝ} {z : ℝ}
    (known : f.elevation? x = some z) : ∃ m : Point ℝ, m.planar ∈ hull r.vertices ∧
      f.Covers (Point.between x m (3 * Scalar.eps / (1 + 3 * Scalar.eps))) := by
  have positive := Scalar.eps_pos
  have turned := positive.trans (solid_of_mem_facets made decided member)
  obtain ⟨-, -, lowA, lowB, lowC⟩ := Facet.eq_plane_of_elevation? known
  let m : Point ℝ := ⟨(f.a.x + f.b.x + f.c.x) / 3, (f.a.y + f.b.y + f.c.y) / 3, 0⟩
  have third : doubleArea f.a f.b m = f.area / 3 ∧ doubleArea f.b f.c m = f.area / 3 ∧
      doubleArea f.c f.a m = f.area / 3 := by
    refine ⟨?_, ?_, ?_⟩ <;> simp only [m, Facet.area, doubleArea] <;> ring
  have near : ∀ d, -Scalar.eps ≤ d / f.area →
      0 ≤ (1 - 3 * Scalar.eps / (1 + 3 * Scalar.eps)) * d
        + 3 * Scalar.eps / (1 + 3 * Scalar.eps) * (f.area / 3) := by
    intro d low
    rw [le_div_iff₀ turned] at low
    have moved : (1 - 3 * Scalar.eps / (1 + 3 * Scalar.eps)) * d
        + 3 * Scalar.eps / (1 + 3 * Scalar.eps) * (f.area / 3)
        = (d + Scalar.eps * f.area) / (1 + 3 * Scalar.eps) := by
      field_simp
      ring
    rw [moved]
    exact div_nonneg (by linarith) (by linarith)
  have middle : f.Covers m := by
    refine ⟨third.1.symm ▸ ?_, third.2.1.symm ▸ ?_, third.2.2.symm ▸ ?_⟩ <;> positivity
  refine ⟨m, planar_mem_hull_of_covers made decided member middle, ?_⟩
  simp only [Facet.Covers, Spans, doubleArea_between, third]
  exact ⟨near _ lowC, near _ lowA, near _ lowB⟩

/-- Over a way through the hull the surface of the facets rises no more than their planes do. -/
theorem abs_plane_sub_le {f g : Facet ℝ} (first : f ∈ r.facets) (last : g ∈ r.facets)
    {x y : Point ℝ} (start : f.Covers x) (stop : g.Covers y)
    (covered : ∀ t ∈ Set.Icc (0 : ℝ) 1, ∃ h ∈ r.facets, h.Covers (Point.between x y t)) {m : ℝ}
    (slow : ∀ h ∈ r.facets, |h.plane y - h.plane x| ≤ m) : |g.plane y - f.plane x| ≤ m := by
  have closed : ∀ h ∈ r.facets.toList, IsClosed {t | h.Covers (Point.between x y t)} :=
    fun h _ => h.isClosed_covers x y
  have agree : ∀ h ∈ r.facets.toList, ∀ k ∈ r.facets.toList, ∀ t,
      t ∈ {t | h.Covers (Point.between x y t)} → t ∈ {t | k.Covers (Point.between x y t)} →
      h.plane x + t * (h.plane y - h.plane x) = k.plane x + t * (k.plane y - k.plane x) := by
    intro h memberH k memberK t isHere isThere
    have same := plane_eq_of_covers made decided (Array.mem_toList_iff.1 memberH)
      (Array.mem_toList_iff.1 memberK) isHere isThere
    rw [Facet.plane_between, Facet.plane_between] at same
    linarith
  have rise := abs_sub_le_of_pieces closed
    (fun h member => slow h (Array.mem_toList_iff.1 member)) agree (by simpa using covered)
    (Array.mem_toList_iff.2 first) (Array.mem_toList_iff.2 last) (by simpa using start)
    (by simpa using stop)
  simpa using rise

/-- Where the facets cover the hull, the elevation that is looked up differs from that of a facet
over the place by no more than six times the tolerance of what the facets rise by. -/
theorem abs_sub_plane_le {rise : ℝ} (rises : r.RisesBy rise)
    (covered : ∀ x ∈ hull r.vertices, ∃ f ∈ r.facets, f.Covers (spot x)) {x : Point ℝ}
    (inside : x.planar ∈ hull r.vertices) {f : Facet ℝ} (member : f ∈ r.facets)
    (covers : f.Covers x) {z : ℝ} (known : r.elevation? x.x x.y = some z) : |z - f.plane x| ≤ 6 * Scalar.eps * rise := by
  have positive := Scalar.eps_pos
  obtain ⟨i, g, entry, accepted⟩ := exists_facet_of_elevation? known
  have member' := Array.mem_of_getElem? entry
  have accepted : g.elevation? x = some z := by
    rwa [Facet.elevation?_congr (show x.Above ⟨x.x, x.y, 0⟩ from ⟨rfl, rfl⟩)]
  obtain ⟨rfl, -⟩ := Facet.eq_plane_of_elevation? accepted
  obtain ⟨m, isPlace, nearby⟩ := exists_covers_nearby made decided member' accepted
  set k : ℝ := 3 * Scalar.eps / (1 + 3 * Scalar.eps) with k_eq
  have forwards : 0 ≤ k := by positivity
  have small : k ≤ 3 * Scalar.eps := div_le_self (by linarith) (by linarith)
  have stop : k ≤ 1 := by
    rw [k_eq, div_le_one (by linarith)]
    linarith
  have nearbyInside := between_mem_hull inside isPlace forwards stop
  -- on the way to the place nearby no plane rises by more than that part of the whole
  have slow : ∀ h ∈ r.facets, |h.plane (Point.between x m k) - h.plane x|
      ≤ 3 * Scalar.eps * rise := by
    intro h memberH
    have whole := rises.abs_sub_le memberH isPlace inside
    have part : h.plane (Point.between x m k) - h.plane x = k * (h.plane m - h.plane x) := by
      rw [Facet.plane_between]
      ring
    rw [part, abs_mul, abs_of_nonneg forwards]
    exact mul_le_mul small whole (abs_nonneg _) (by linarith)
  have surface := abs_plane_sub_le made decided member member' covers nearby
    (fun t ⟨start, stop⟩ => covered _ (between_mem_hull inside nearbyInside start stop)) slow
  have own := slow g member'
  rw [abs_le] at *
  constructor <;> linarith

end Made

end Relief

end RoadNoise
