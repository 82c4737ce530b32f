/-
# RoadNoise.Proofs.Whole -- ground and cuts at whole coordinates

Where points lie at whole coordinates, what the tolerances of the triangulation decide can be
computed, whatever the elevations of the points (`decided_raised`, `empty_of_mem_facets`).  If
besides no two places are further than 170 m apart, the tolerances decide nothing about cuts
between such places (`Relief.resolves_of_whole`): what is compared with a tolerance there is a
whole number or a ratio of whole numbers that are not too great, and two of those are equal or
well apart (`Ratio.eq_of_abs_sub_le`).
-/
import RoadNoise.Proofs.Soundings

set_option autoImplicit false

namespace RoadNoise

open Triangulation

/-! ## Ratios of whole numbers -/

/-- The whole numbers. -/
noncomputable def wholes : Subring ℝ := (Int.castRingHom ℝ).range

theorem intCast_mem_wholes (n : ℤ) : (n : ℝ) ∈ wholes := ⟨n, rfl⟩

theorem one_le_abs_of_mem_wholes {x : ℝ} (whole : x ∈ wholes) (nonzero : x ≠ 0) : 1 ≤ |x| := by
  obtain ⟨n, rfl⟩ := whole
  have nonzero : n ≠ 0 := by
    rintro rfl
    simp at nonzero
  simpa using mod_cast Int.one_le_abs nonzero

/-- A ratio of whole numbers, the lower of them at most as great as the square of 170. -/
def Ratio (x : ℝ) : Prop :=
  ∃ n ∈ wholes, ∃ d ∈ wholes, d ≠ 0 ∧ |d| ≤ 170 * 170 ∧ x = n / d

namespace Ratio

variable {x y : ℝ}

theorem zero : Ratio 0 := ⟨0, zero_mem _, 1, one_mem _, one_ne_zero, by norm_num, by simp⟩

theorem one : Ratio 1 := ⟨1, one_mem _, 1, one_mem _, one_ne_zero, by norm_num, by simp⟩

theorem min (first : Ratio x) (second : Ratio y) : Ratio (min x y) := by
  rcases min_choice x y with same | same <;> rwa [same]

theorem max (first : Ratio x) (second : Ratio y) : Ratio (max x y) := by
  rcases max_choice x y with same | same <;> rwa [same]

theorem clamp (ratio : Ratio x) : Ratio (Scalar.clamp 0 1 x) := by
  unfold Scalar.clamp
  split_ifs
  · exact zero
  · exact one
  · exact ratio

/-- Two of them are equal or well apart. -/
theorem eq_of_abs_sub_le (first : Ratio x) (second : Ratio y) (near : |x - y| ≤ Scalar.eps) :
    x = y := by
  obtain ⟨n, wholeN, d, wholeD, solid, small, rfl⟩ := first
  obtain ⟨m, wholeM, e, wholeE, solid', small', rfl⟩ := second
  by_contra apart
  have difference : n / d - m / e = (n * e - d * m) / (d * e) := div_sub_div _ _ solid solid'
  have whole : n * e - d * m ∈ wholes := sub_mem (mul_mem wholeN wholeE) (mul_mem wholeD wholeM)
  have nonzero : n * e - d * m ≠ 0 := by
    intro none
    rw [none, zero_div] at difference
    exact apart (sub_eq_zero.1 difference)
  have one := one_le_abs_of_mem_wholes whole nonzero
  have lower : |d * e| ≤ 170 * 170 * (170 * 170) := by
    rw [abs_mul]
    exact mul_le_mul small small' (abs_nonneg _) (by norm_num)
  rw [difference, abs_div, div_le_iff₀ (abs_pos.2 (mul_ne_zero solid solid')),
    Scalar.eps_eq] at near
  linarith

theorem nonneg (ratio : Ratio x) (low : -Scalar.eps ≤ x) : 0 ≤ x := by
  by_contra negative
  have near : |x - 0| ≤ Scalar.eps := by
    rw [sub_zero, abs_of_neg (not_le.1 negative)]
    linarith
  exact negative (ratio.eq_of_abs_sub_le zero near).ge

theorem le_one (ratio : Ratio x) (high : x ≤ 1 + Scalar.eps) : x ≤ 1 := by
  by_contra greater
  have near : |x - 1| ≤ Scalar.eps := by
    rw [abs_of_pos (sub_pos.2 (not_le.1 greater))]
    linarith
  exact greater (ratio.eq_of_abs_sub_le one near).le

end Ratio

/-! ## Places at whole coordinates -/

/-- The place lies at whole coordinates. -/
def Whole (v : Point ℝ) : Prop := v.x ∈ wholes ∧ v.y ∈ wholes

section Cut

variable {p q a b : Point ℝ}

theorem dot_eq_sq_planarDistance (p q : Point ℝ) :
    (q - p).dot (q - p) = p.planarDistance q ^ 2 := by
  rw [Point.planarDistance_eq, Real.sq_sqrt (by positivity)]
  simp only [Displacement.dot, sub_dx, sub_dy]
  ring

theorem abs_cross_le (p q a b : Point ℝ) :
    |(q - p).cross (b - a)| ≤ p.planarDistance q * a.planarDistance b := by
  refine abs_le_of_sq_le_sq ?_ (mul_nonneg (p.planarDistance_nonneg q) (a.planarDistance_nonneg b))
  rw [mul_pow, ← dot_eq_sq_planarDistance, ← dot_eq_sq_planarDistance]
  simp only [Displacement.cross, Displacement.dot, sub_dx, sub_dy]
  nlinarith [sq_nonneg ((q.x - p.x) * (b.x - a.x) + (q.y - p.y) * (b.y - a.y))]

variable (wholeP : Whole p) (wholeQ : Whole q) (wholeA : Whole a) (wholeB : Whole b)

include wholeP wholeQ wholeA wholeB

theorem cross_mem_wholes : (q - p).cross (b - a) ∈ wholes :=
  sub_mem (mul_mem (sub_mem wholeQ.1 wholeP.1) (sub_mem wholeB.2 wholeA.2))
    (mul_mem (sub_mem wholeQ.2 wholeP.2) (sub_mem wholeB.1 wholeA.1))

theorem dot_mem_wholes : (q - p).dot (b - a) ∈ wholes :=
  add_mem (mul_mem (sub_mem wholeQ.1 wholeP.1) (sub_mem wholeB.1 wholeA.1))
    (mul_mem (sub_mem wholeQ.2 wholeP.2) (sub_mem wholeB.2 wholeA.2))

variable (short : p.planarDistance q ≤ 170) (short' : a.planarDistance b ≤ 170)

include short short'

theorem ratio_of_cross {n : ℝ} (whole : n ∈ wholes) (turn : (q - p).cross (b - a) ≠ 0) :
    Ratio (n / (q - p).cross (b - a)) := by
  refine ⟨n, whole, _, cross_mem_wholes wholeP wholeQ wholeA wholeB, turn, ?_, rfl⟩
  exact (abs_cross_le p q a b).trans
    (mul_le_mul short short' (a.planarDistance_nonneg b) (by norm_num))

theorem Resolved.of_whole (apart : ¬a.Above b) : Resolved p q a b where
  long := by
    have whole := dot_mem_wholes wholeA wholeB wholeA wholeB
    have nonzero : (b - a).dot (b - a) ≠ 0 := by
      intro none
      simp only [Displacement.dot, sub_dx, sub_dy] at none
      refine apart ⟨?_, ?_⟩ <;> nlinarith [mul_self_nonneg (b.x - a.x), mul_self_nonneg (b.y - a.y)]
    have one := one_le_abs_of_mem_wholes whole nonzero
    rw [dot_eq_sq_planarDistance, abs_of_nonneg (sq_nonneg _),
      one_le_sq_iff₀ (a.planarDistance_nonneg b)] at one
    exact Scalar.eps_lt_one.trans_le one
  turned := by
    refine or_iff_not_imp_left.2 fun turn => ?_
    have one := one_le_abs_of_mem_wholes (cross_mem_wholes wholeP wholeQ wholeA wholeB) turn
    have square : max ((q - p).dot (q - p)) 1 ≤ 170 ^ 2 := by
      rw [dot_eq_sq_planarDistance]
      exact max_le (pow_le_pow_left₀ (p.planarDistance_nonneg q) short 2) (by norm_num)
    refine (mul_le_mul_of_nonneg_left square Scalar.eps_pos.le).trans (le_trans ?_ one)
    rw [Scalar.eps_eq]
    norm_num
  apart := by
    intro _
    refine or_iff_not_imp_left.2 fun off => ?_
    have one := one_le_abs_of_mem_wholes (cross_mem_wholes wholeP wholeA wholeP wholeQ) off
    have length : max √((q - p).dot (q - p)) 1 ≤ 170 := by
      rw [dot_eq_sq_planarDistance, Real.sqrt_sq (p.planarDistance_nonneg q)]
      exact max_le short (by norm_num)
    refine (mul_le_mul_of_nonneg_left length Scalar.eps_pos.le).trans_lt (lt_of_lt_of_le ?_ one)
    rw [Scalar.eps_eq]
    norm_num
  missed := by
    rintro turn ⟨low, high⟩
    have ratio := ratio_of_cross wholeP wholeQ wholeA wholeB short short'
      (cross_mem_wholes wholeP wholeA wholeP wholeQ) turn
    exact ⟨ratio.nonneg low, ratio.le_one high⟩

/-- Positions of soundings are such ratios. -/
theorem ratio_of_mem_soundings {k : Sounding ℝ} (met : k ∈ soundings p q a b) :
    Ratio k.position := by
  unfold soundings at met
  split at met
  · rename_i t s point
    obtain rfl := List.mem_singleton.1 met
    obtain ⟨turn, position, -⟩ := Crossing.eq_of_point point
    rw [position]
    exact (ratio_of_cross wholeP wholeQ wholeA wholeB short short'
      (cross_mem_wholes wholeP wholeA wholeA wholeB) turn).clamp
  · rename_i t0 t1 overlap
    obtain ⟨-, -, wide, first, second⟩ := Crossing.of_overlap overlap
    have solid := (mul_pos Scalar.eps_pos Scalar.eps_pos).trans_le wide
    have foot : ∀ v, Whole v → Ratio (v.foot p q) := by
      refine fun v wholeV => ⟨_, dot_mem_wholes wholeP wholeV wholeP wholeQ, _,
        dot_mem_wholes wholeP wholeQ wholeP wholeQ, solid.ne', ?_, rfl⟩
      rw [abs_of_pos solid, dot_eq_sq_planarDistance, sq]
      exact mul_le_mul short short (p.planarDistance_nonneg q) (by norm_num)
    obtain ⟨t, position, rfl⟩ := List.mem_map.1 met
    simp only [List.mem_cons, List.not_mem_nil, or_false] at position
    rcases position with rfl | rfl
    · rw [first]
      exact ((foot a wholeA).min (foot b wholeB)).max .zero
    · rw [second]
      exact ((foot a wholeA).max (foot b wholeB)).min .one
  · simp at met

end Cut

theorem Facet.apart_of_mem_sides {f : Facet ℝ} (turned : 0 < f.area) {e : Point ℝ × Point ℝ}
    (side : e ∈ f.sides) : ¬e.1.Above e.2 := by
  obtain ⟨g, rfl, area, -⟩ := exists_turned_of_mem_sides side
  intro above
  have flat : g.area = 0 := by
    rw [Facet.area, doubleArea, above.1, above.2]
    ring
  exact turned.ne' (area.symm.trans flat)

/-- Between places at whole coordinates, all within 170 m, cuts are resolved. -/
theorem Relief.resolves_of_whole {points : List (Point ℝ)} {r : Relief ℝ}
    (made : ofPoints? points = some r) (decided : Decided (verticesOf points)) {p q : Point ℝ}
    (wholes : ∀ v ∈ p :: q :: r.vertices, Whole v)
    (within : ∀ v ∈ p :: q :: r.vertices, ∀ w ∈ p :: q :: r.vertices, v.planarDistance w ≤ 170) :
    r.Resolves p q := by
  have memP : p ∈ p :: q :: r.vertices := by simp
  have memQ : q ∈ p :: q :: r.vertices := by simp
  have ends : ∀ f ∈ r.facets, ∀ e ∈ f.sides,
      e.1 ∈ p :: q :: r.vertices ∧ e.2 ∈ p :: q :: r.vertices := by
    intro f member e side
    obtain ⟨first, second, third⟩ := corners_mem_vertices made decided member
    simp only [Facet.sides, List.mem_cons, List.not_mem_nil, or_false] at side
    rcases side with rfl | rfl | rfl <;> simp [first, second, third]
  have ratio : ∀ f ∈ r.facets, ∀ e ∈ f.sides, ∀ k ∈ soundings p q e.1 e.2, Ratio k.position := by
    intro f member e side k met
    obtain ⟨first, second⟩ := ends f member e side
    exact ratio_of_mem_soundings (wholes p memP) (wholes q memQ) (wholes _ first) (wholes _ second)
      (within p memP q memQ) (within _ first _ second) met
  constructor
  · intro f member e side
    obtain ⟨first, second⟩ := ends f member e side
    have turned := Scalar.eps_pos.trans (solid_of_mem_facets made decided member)
    exact .of_whole (wholes p memP) (wholes q memQ) (wholes _ first) (wholes _ second)
      (within p memP q memQ) (within _ first _ second) (Facet.apart_of_mem_sides turned side)
  · intro f member e side k met g member' d side' l met' near
    exact (ratio f member e side k met).eq_of_abs_sub_le (ratio g member' d side' l met')
      ((Scalar.near_iff _ _).1 near).le

/-! ## Points above whole coordinates -/

namespace Lattice

/-- The point at whole coordinates and at a whole elevation. -/
noncomputable def raised (e : (ℤ × ℤ) × ℤ) : Point ℝ := (point e.1).raisedTo e.2

theorem whole_raised (e : (ℤ × ℤ) × ℤ) : Whole (raised e) :=
  ⟨intCast_mem_wholes e.1.1, intCast_mem_wholes e.1.2⟩

variable {es : List ((ℤ × ℤ) × ℤ)}

theorem outerCorners_raised (es : List ((ℤ × ℤ) × ℤ)) :
    outerCorners (es.map raised) = outerCorners ((es.map Prod.fst).map point) := by
  have same : Box.around? (es.map raised) = Box.around? ((es.map Prod.fst).map point) := by
    cases es with
    | nil => rfl
    | cons e es =>
        simp only [List.map_cons, Box.around?, Box.around, List.foldl_map]
        rfl
  rw [outerCorners, outerCorners, outermost, outermost, same]
  simp only [List.length_map]

/-- Every point, and every corner of the outermost triangle, is above one at elevation zero. -/
theorem exists_above_of_mem {p : Point ℝ}
    (member : p ∈ es.map raised ++ outerCorners (es.map raised)) :
    ∃ q ∈ (es.map Prod.fst).map point ++ outerCorners ((es.map Prod.fst).map point), p.Above q := by
  rcases List.mem_append.1 member with inner | outer
  · obtain ⟨e, entry, rfl⟩ := List.mem_map.1 inner
    exact ⟨point e.1, List.mem_append_left _ (List.mem_map_of_mem (List.mem_map_of_mem entry)),
      rfl, rfl⟩
  · rw [outerCorners_raised] at outer
    exact ⟨p, List.mem_append_right _ outer, .refl p⟩

theorem decided_raised (decided : Decided ((es.map Prod.fst).map point)) :
    Decided (es.map raised) where
  area := by
    intro a first b second c third
    obtain ⟨a', first', aboveA⟩ := exists_above_of_mem first
    obtain ⟨b', second', aboveB⟩ := exists_above_of_mem second
    obtain ⟨c', third', aboveC⟩ := exists_above_of_mem third
    have flat := decided.area a' first' b' second' c' third'
    simpa only [doubleArea, aboveA.1, aboveA.2, aboveB.1, aboveB.2, aboveC.1, aboveC.2] using flat
  circle := by
    intro a first b second c third o through p member near
    obtain ⟨a', first', aboveA⟩ := exists_above_of_mem first
    obtain ⟨b', second', aboveB⟩ := exists_above_of_mem second
    obtain ⟨c', third', aboveC⟩ := exists_above_of_mem third
    obtain ⟨e, entry, rfl⟩ := List.mem_map.1 member
    unfold circle? at through
    rw [aboveA.1, aboveA.2, aboveB.1, aboveB.2, aboveC.1, aboveC.2] at through
    exact decided.circle a' first' b' second' c' third' o through (point e.1)
      (List.mem_map_of_mem (List.mem_map_of_mem entry)) near

theorem spread_raised (spread : Spread ((es.map Prod.fst).map point)) : Spread (es.map raised) := by
  obtain ⟨a, first, b, second, c, third, solid⟩ := spread
  rw [List.map_map] at first second third
  obtain ⟨e, entry, rfl⟩ := List.mem_map.1 first
  obtain ⟨f, entry', rfl⟩ := List.mem_map.1 second
  obtain ⟨g, entry'', rfl⟩ := List.mem_map.1 third
  exact ⟨raised e, List.mem_map_of_mem entry, raised f, List.mem_map_of_mem entry', raised g,
    List.mem_map_of_mem entry'', solid⟩

theorem clear_raised (clear : ∀ o, EmptyCircle ((es.map Prod.fst).map point) o →
      ∀ s ∈ outerCorners ((es.map Prod.fst).map point), 0 < o.power s) :
    ∀ o, EmptyCircle (es.map raised) o → ∀ s ∈ outerCorners (es.map raised), 0 < o.power s := by
  rintro o ⟨⟨a, first, b, second, c, third, through⟩, empty⟩
  have known : ∀ e ∈ es, point e.1 ∈ (es.map Prod.fst).map point := fun e entry =>
    List.mem_map_of_mem (List.mem_map_of_mem entry)
  obtain ⟨e, entry, rfl⟩ := List.mem_map.1 first
  obtain ⟨f, entry', rfl⟩ := List.mem_map.1 second
  obtain ⟨g, entry'', rfl⟩ := List.mem_map.1 third
  rw [outerCorners_raised]
  refine clear o ⟨⟨_, known e entry, _, known f entry', _, known g entry'', through⟩, ?_⟩
  intro p member
  rw [List.map_map] at member
  obtain ⟨h, entry, rfl⟩ := List.mem_map.1 member
  exact empty (raised h) (List.mem_map_of_mem entry)

theorem verticesOf_raised
    (sorted : (es.map Prod.fst).Pairwise fun p q => p.1 < q.1 ∨ p.1 = q.1 ∧ p.2 < q.2) :
    Relief.verticesOf (es.map raised) = es.map raised := by
  refine verticesOf_eq_self (List.pairwise_map.2 ?_) (List.pairwise_map.2 ?_)
  · exact List.pairwise_map.1 (ordered_of_sorted sorted)
  · exact List.pairwise_map.1 (told_of_sorted sorted)

/-- A facet runs counter-clockwise between three of the points, and its circle has none of
them in it. -/
theorem empty_of_mem_facets {points : List (Point ℝ)} {r : Relief ℝ}
    (made : Relief.ofPoints? points = some r) (vertices : Relief.verticesOf points = es.map raised)
    (decided : Decided (es.map raised)) {f : Facet ℝ} (member : f ∈ r.facets) :
    ∃ a ∈ es, ∃ b ∈ es, ∃ c ∈ es, f = ⟨raised a, raised b, raised c⟩ ∧
      0 < area a.1 b.1 c.1 ∧ ∀ e ∈ es, inCircle a.1 b.1 c.1 e.1 ≤ 0 := by
  obtain ⟨-, found, -⟩ := Relief.ofPoints?_eq_some made
  rw [(Relief.ofPoints?_eq_some made).1, vertices] at found
  obtain ⟨whole, start⟩ := exists_outermost (Relief.three_le_of_delaunay? found)
  obtain ⟨t, inner, known, rfl⟩ := Relief.exists_triangle made (vertices ▸ decided) member
  rw [vertices] at inner known
  obtain ⟨first, second, third⟩ := Triangle.forall_corners.1 known
  obtain ⟨a, entryA, atA⟩ := List.mem_map.1 (point_mem_of_mem_numbered first)
  obtain ⟨b, entryB, atB⟩ := List.mem_map.1 (point_mem_of_mem_numbered second)
  obtain ⟨c, entryC, atC⟩ := List.mem_map.1 (point_mem_of_mem_numbered third)
  have tess := tessellates decided start
  have turned : 0 < doubleArea (point a.1) (point b.1) (point c.1) := by
    have turned := tess.turned t inner
    rwa [Triangle.area, ← atA, ← atB, ← atC] at turned
  have through : circle? (point a.1) (point b.1) (point c.1) = some t.circle := by
    have through := tess.circles t inner
    rwa [← atA, ← atB, ← atC] at through
  rw [doubleArea_point] at turned
  refine ⟨a, entryA, b, entryB, c, entryC, by rw [atA, atB, atC]; rfl, by exact_mod_cast turned,
    fun e entry => ?_⟩
  have out := (empty_of_mem_inserted decided start inner).1 _ (List.mem_map_of_mem entry)
  have sign := mul_nonneg out turned.le
  have power : t.circle.power (raised e) = t.circle.power (point e.1) := rfl
  rw [power, power_mul through, neg_nonneg] at sign
  exact_mod_cast sign

end Lattice

end RoadNoise
