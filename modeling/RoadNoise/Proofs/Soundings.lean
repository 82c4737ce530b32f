/-
# RoadNoise.Proofs.Soundings -- where a cut meets the sides of facets

A cut knows the ground at soundings, which are taken where it meets the sides of facets.  Where
the tolerances decide nothing about a side (`Resolved`), a sounding between the ends of the cut
is a place of the side with its elevation there (`Resolved.above_of_mem_soundings`), and a side
that is crossed is sounded at the place (`Resolved.mem_soundings`).
-/
import RoadNoise.Proofs.Facets

set_option autoImplicit false

namespace RoadNoise

open Triangulation

/-- The tolerances decide nothing about how the segment from `p` to `q` meets the side from `a`
to `b`. -/
structure Resolved (p q a b : Point ℝ) : Prop where
  /-- The side is longer than the tolerance. -/
  long : Scalar.eps < a.planarDistance b
  /-- The two are parallel, or well off that. -/
  turned : (q - p).cross (b - a) = 0 ∨
    Scalar.eps * max ((q - p).dot (q - p)) 1 ≤ |(q - p).cross (b - a)|
  /-- If they are parallel, they are on one line or well apart. -/
  apart : (q - p).cross (b - a) = 0 → (a - p).cross (q - p) = 0 ∨
    Scalar.eps * max (Real.sqrt ((q - p).dot (q - p))) 1 < |(a - p).cross (q - p)|
  /-- If they are not, the line of the segment meets the side or misses it by more than the
  tolerance. -/
  missed : (q - p).cross (b - a) ≠ 0 →
    (-Scalar.eps ≤ (a - p).cross (q - p) / (q - p).cross (b - a) ∧
      (a - p).cross (q - p) / (q - p).cross (b - a) ≤ 1 + Scalar.eps) →
    0 ≤ (a - p).cross (q - p) / (q - p).cross (b - a) ∧
      (a - p).cross (q - p) / (q - p).cross (b - a) ≤ 1

/-! ## Meetings -/

namespace Crossing

variable {p q a b : Point ℝ} {t s t0 t1 : ℝ}

/-- What is known of the lines of two segments that meet in one point. -/
theorem within_of_point (met : Crossing.of p q a b = .point t s) :
    -Scalar.eps ≤ (a - p).cross (q - p) / (q - p).cross (b - a) ∧
      (a - p).cross (q - p) / (q - p).cross (b - a) ≤ 1 + Scalar.eps := by
  unfold Crossing.of at met
  dsimp only at met
  split at met
  · unfold ofParallel at met
    dsimp only at met
    split_ifs at met
  · split_ifs at met with inside
    simp only [Bool.and_eq_true, Scalar.within_iff] at inside
    exact inside.2

/-- What is known of two segments that overlap. -/
theorem of_overlap (met : Crossing.of p q a b = .overlap t0 t1) :
    |(q - p).cross (b - a)| < Scalar.eps * max ((q - p).dot (q - p)) 1 ∧
      |(a - p).cross (q - p)| ≤ Scalar.eps * max (Real.sqrt ((q - p).dot (q - p))) 1 ∧
      Scalar.eps * Scalar.eps ≤ (q - p).dot (q - p) ∧
      t0 = max (min (a.foot p q) (b.foot p q)) 0 ∧ t1 = min (max (a.foot p q) (b.foot p q)) 1 := by
  unfold Crossing.of at met
  dsimp only at met
  split at met
  · rename_i parallel
    unfold ofParallel at met
    dsimp only at met
    split_ifs at met with off
    obtain ⟨rfl, rfl⟩ := Crossing.overlap.inj met
    simp only [Bool.or_eq_true, decide_eq_true_eq, not_or, not_lt] at off
    exact ⟨parallel, off.1, off.2, rfl, rfl⟩
  · split_ifs at met

end Crossing

namespace Resolved

variable {p q a b : Point ℝ} {k : Sounding ℝ}

/-- A side that is parallel and overlaps lies on the line. -/
theorem onLine_of_overlap (resolved : Resolved p q a b) {t0 t1 : ℝ}
    (met : Crossing.of p q a b = .overlap t0 t1) :
    a.Above (Point.between p q (a.foot p q)) ∧ b.Above (Point.between p q (b.foot p q)) := by
  obtain ⟨parallel, near, wide, -⟩ := Crossing.of_overlap met
  have solid : 0 < (q.x - p.x) * (q.x - p.x) + (q.y - p.y) * (q.y - p.y) :=
    (mul_pos Scalar.eps_pos Scalar.eps_pos).trans_le wide
  have turn := resolved.turned.resolve_right (not_le.2 parallel)
  have start := (resolved.apart turn).resolve_right (not_lt.2 near)
  simp only [Displacement.cross, sub_dx, sub_dy] at turn start
  refine ⟨Point.above_of_sideOf_eq_zero solid ?_, Point.above_of_sideOf_eq_zero solid ?_⟩
  · rw [Point.sideOf_eq]
    linear_combination -start
  · rw [Point.sideOf_eq]
    linear_combination turn - start

/-- Between the ends of the segment a sounding is a place of the side with its elevation
there. -/
theorem above_of_mem_soundings (resolved : Resolved p q a b) (met : k ∈ soundings p q a b)
    (start : 0 < k.position) (stop : k.position < 1) :
    ∃ s, (0 ≤ s ∧ s ≤ 1) ∧ (Point.between p q k.position).Above (Point.between a b s) ∧
      k.elevation = a.z + s * (b.z - a.z) := by
  unfold soundings at met
  split at met
  · rename_i t s point
    obtain rfl := List.mem_singleton.1 met
    obtain ⟨turn, held, held'⟩ := Crossing.eq_of_point point
    have inside := resolved.missed turn (Crossing.within_of_point point)
    rw [held] at start stop
    rw [Scalar.clamp_eq_self start stop] at held
    rw [Scalar.clamp_of_mem inside.1 inside.2] at held'
    rw [← held'] at inside
    exact ⟨s, inside, (Crossing.above_iff_shares turn).2 ⟨held, held'⟩, rfl⟩
  · rename_i t0 t1 overlap
    obtain ⟨atA, atB⟩ := resolved.onLine_of_overlap overlap
    obtain ⟨-, -, -, first, second⟩ := Crossing.of_overlap overlap
    obtain ⟨t, position, rfl⟩ := List.mem_map.1 met
    -- the ends of the overlap that lie between those of the segment are ends of the side
    have isEnd : t = a.foot p q ∨ t = b.foot p q := by
      simp only [List.mem_cons, List.not_mem_nil, or_false] at position
      rcases position with rfl | rfl
      · rw [first] at start ⊢
        have low := (lt_max_iff.1 start).resolve_right (lt_irrefl _)
        rw [max_eq_left low.le]
        exact min_choice _ _
      · rw [second] at stop ⊢
        have high := (min_lt_iff.1 stop).resolve_right (lt_irrefl _)
        rw [min_eq_left high.le]
        exact max_choice _ _
    dsimp only
    rw [if_pos resolved.long]
    rcases isEnd with rfl | rfl
    · refine ⟨0, ⟨le_rfl, zero_le_one⟩, by simpa using atA.symm, ?_⟩
      have here : a.planarDistance (Point.between p q (a.foot p q)) = 0 := by
        rw [(Point.Above.refl a).planarDistance_eq atA.symm]
        simp [Point.planarDistance_eq]
      rw [here, zero_div]
    · refine ⟨1, ⟨zero_le_one, le_rfl⟩, by simpa using atB.symm, ?_⟩
      rw [(Point.Above.refl a).planarDistance_eq atB.symm,
        div_self (Scalar.eps_pos.trans resolved.long).ne']
  · simp at met

theorem mem_soundings (resolved : Resolved p q a b) {t s : ℝ} (inside : 0 ≤ t ∧ t ≤ 1)
    (inside' : 0 ≤ s ∧ s ≤ 1) (above : (Point.between p q t).Above (Point.between a b s))
    (turn : (q - p).cross (b - a) ≠ 0) : ⟨t, a.z + s * (b.z - a.z)⟩ ∈ soundings p q a b := by
  obtain ⟨first, second⟩ := (Crossing.above_iff_shares turn).1 above
  have positive := Scalar.eps_pos
  have wide : ¬|(q - p).cross (b - a)| < Scalar.eps * max ((q - p).dot (q - p)) 1 :=
    not_lt.2 (resolved.turned.resolve_left turn)
  have met : Crossing.of p q a b = .point t s := by
    unfold Crossing.of
    dsimp only
    rw [Scalar.abs_eq, if_neg wide, ← first, ← second, Scalar.clamp_of_mem inside.1 inside.2,
      Scalar.clamp_of_mem inside'.1 inside'.2, if_pos]
    simp only [Bool.and_eq_true, Scalar.within_iff]
    exact ⟨⟨by linarith, by linarith⟩, by linarith, by linarith⟩
  unfold soundings
  rw [met]
  exact List.mem_singleton.2 rfl

end Resolved

/-! ## Ways out of a facet -/

/-- Numbers that are not negative at first and change at steady rates: either none gets negative
up to one, or one of them is zero before that and falling. -/
theorem exists_exit {l : List (ℝ × ℝ)} (start : ∀ c ∈ l, 0 ≤ c.1) :
    ∃ k, (0 ≤ k ∧ k ≤ 1) ∧ (∀ c ∈ l, 0 ≤ c.1 + k * c.2) ∧
      (k = 1 ∨ ∃ c ∈ l, c.1 + k * c.2 = 0 ∧ c.2 < 0) := by
  induction l with
  | nil => exact ⟨1, ⟨zero_le_one, le_rfl⟩, by simp, .inl rfl⟩
  | cons c l ih =>
      obtain ⟨first, later⟩ := List.forall_mem_cons.1 start
      obtain ⟨k, ⟨forwards, stop⟩, stay, ends⟩ := ih later
      by_cases here : 0 ≤ c.1 + k * c.2
      · refine ⟨k, ⟨forwards, stop⟩, List.forall_mem_cons.2 ⟨here, stay⟩, ends.imp_right ?_⟩
        rintro ⟨d, member, exit⟩
        exact ⟨d, List.mem_cons_of_mem _ member, exit⟩
      · -- `c` gets negative before the others do
        have falling : c.2 < 0 := by
          by_contra rising
          exact here (add_nonneg first (mul_nonneg forwards (not_lt.1 rising)))
        have zero : c.1 + c.1 / -c.2 * c.2 = 0 := by
          rw [div_neg, neg_mul, div_mul_cancel₀ _ falling.ne, add_neg_cancel]
        have before : c.1 / -c.2 ≤ k := by
          rw [div_le_iff₀ (neg_pos.2 falling)]
          linarith
        have nonneg : 0 ≤ c.1 / -c.2 := div_nonneg first (neg_pos.2 falling).le
        refine ⟨c.1 / -c.2, ⟨nonneg, before.trans stop⟩, List.forall_mem_cons.2 ⟨zero.ge, ?_⟩,
          .inr ⟨c, List.mem_cons_self, zero, falling⟩⟩
        intro d member
        rcases le_total 0 d.2 with up | down
        · exact add_nonneg (later d member) (mul_nonneg nonneg up)
        · nlinarith [stay d member]

/-- A way from a place of a facet stays in it to the end or meets a side on its way out. -/
theorem Facet.exists_exit {f : Facet ℝ} (turned : 0 < f.area) {x : Point ℝ} (covers : f.Covers x)
    (y : Point ℝ) : ∃ k, (0 ≤ k ∧ k ≤ 1) ∧ f.Covers (Point.between x y k) ∧
      (k = 1 ∨ ∃ e ∈ f.sides, doubleArea e.1 e.2 y < doubleArea e.1 e.2 x ∧
        ∃ s, (0 ≤ s ∧ s ≤ 1) ∧ (Point.between x y k).Above (Point.between e.1 e.2 s)) := by
  have spans : ∀ z, f.Covers z ↔ ∀ e ∈ f.sides, 0 ≤ doubleArea e.1 e.2 z := by
    simp [Covers, Spans, sides]
  let rates := f.sides.map fun e =>
    (doubleArea e.1 e.2 x, doubleArea e.1 e.2 y - doubleArea e.1 e.2 x)
  have first : ∀ c ∈ rates, 0 ≤ c.1 := List.forall_mem_map.2 ((spans x).1 covers)
  obtain ⟨k, ⟨start, stop⟩, stay, ends⟩ := RoadNoise.exists_exit first
  have along : ∀ e : Point ℝ × Point ℝ, doubleArea e.1 e.2 (Point.between x y k)
      = doubleArea e.1 e.2 x + k * (doubleArea e.1 e.2 y - doubleArea e.1 e.2 x) := by
    intro e
    rw [doubleArea_between]
    ring
  have here : f.Covers (Point.between x y k) := by
    refine (spans _).2 fun e side => ?_
    rw [along]
    exact stay _ (List.mem_map_of_mem side)
  refine ⟨k, ⟨start, stop⟩, here, ends.imp_right ?_⟩
  rintro ⟨c, member, zero, falling⟩
  obtain ⟨e, side, rfl⟩ := List.mem_map.1 member
  refine ⟨e, side, sub_neg.1 falling, ?_⟩
  obtain ⟨g, rfl, area, covers, -⟩ := exists_turned_of_mem_sides side
  rw [← area] at turned
  exact exists_above_between turned ((covers _).2 here) ((along (g.a, g.b)).trans zero)

/-! ## Crossings of a relief -/

theorem Point.between_between (p q : Point ℝ) (u e k : ℝ) :
    Point.between (Point.between p q u) (Point.between p q e) k
      = Point.between p q (u + k * (e - u)) := by
  ext <;> simp only [Point.between] <;> ring

/-- A facet that stands above the straight line by more than `h` does so on the whole way to an
end, since the height over the line changes at a steady rate. -/
theorem Facet.exists_end_above {f : Facet ℝ} {p q : Point ℝ} {t h : ℝ} (start : 0 ≤ t)
    (stop : t ≤ 1) (above : (Point.between p q t).z + h < f.plane (Point.between p q t)) :
    ∃ e : ℝ, (e = 0 ∨ e = 1) ∧ ∀ k, 0 ≤ k → k ≤ 1 →
      (Point.between p q (t + k * (e - t))).z + h
        < f.plane (Point.between p q (t + k * (e - t))) := by
  obtain ⟨e, isEnd, high⟩ : ∃ e : ℝ, (e = 0 ∨ e = 1) ∧
      (Point.between p q e).z + h < f.plane (Point.between p q e) := by
    by_contra! low
    have atP := low 0 (.inl rfl)
    have atQ := low 1 (.inr rfl)
    rw [Point.between_zero] at atP
    rw [Point.between_one] at atQ
    rw [Facet.plane_between] at above
    simp only [Point.between] at above
    nlinarith
  refine ⟨e, isEnd, fun k forwards ends => ?_⟩
  have combined := convex_Ioi (0 : ℝ) (sub_pos.2 above) (sub_pos.2 high)
    (by linarith : 0 ≤ 1 - k) forwards (by ring)
  rw [Set.mem_Ioi, smul_eq_mul, smul_eq_mul] at combined
  rw [← sub_pos, ← Point.between_between, Facet.plane_between]
  refine combined.trans_eq ?_
  simp only [Point.between]
  ring

namespace Relief

variable {points : List (Point ℝ)} {r : Relief ℝ} {p q : Point ℝ}

/-- The tolerances decide nothing about how a cut meets the relief: it is resolved how it meets
each side, and sides are met at one position or well apart. -/
structure Resolves (r : Relief ℝ) (p q : Point ℝ) : Prop where
  side : ∀ f ∈ r.facets, ∀ e ∈ f.sides, Resolved p q e.1 e.2
  apart : ∀ f ∈ r.facets, ∀ e ∈ f.sides, ∀ k ∈ soundings p q e.1 e.2,
    ∀ g ∈ r.facets, ∀ d ∈ g.sides, ∀ l ∈ soundings p q d.1 d.2,
      Scalar.near k.position l.position = true → k.position = l.position

/-- A sounding is listed, or one near to it is. -/
theorem exists_near_of_mem_soundings {i : Nat} (along : i ∈ r.grid.along p q) {f : Facet ℝ}
    (entry : r.facets[i]? = some f) {e : Point ℝ × Point ℝ} (side : e ∈ f.sides) {k : Sounding ℝ}
    (met : k ∈ soundings p q e.1 e.2) :
    ∃ l ∈ r.crossings p q, Scalar.near k.position l.position = true := by
  unfold crossings
  refine Sequence.exists_same_of_mem (fun s t : Sounding ℝ => Scalar.near s.position t.position)
    (by simp [Scalar.eps_pos]) (Sequence.mem_sortOn.2 (List.mem_flatMap.2 ⟨i, along, ?_⟩))
  rw [entry]
  exact List.mem_flatMap.2 ⟨e, side, met⟩

section Resolved

variable (made : ofPoints? points = some r) (decided : Decided (verticesOf points))
  (resolves : r.Resolves p q)

include made decided resolves

/-- A crossing is a place of a facet, at the elevation of its plane. -/
theorem exists_facet_of_mem_crossings {k : Sounding ℝ} (crossing : k ∈ r.crossings p q)
    (start : 0 < k.position) (stop : k.position < 1) : ∃ f ∈ r.facets,
      f.Covers (Point.between p q k.position) ∧
        k.elevation = f.plane (Point.between p q k.position) := by
  obtain ⟨i, f, entry, e, side, met⟩ := exists_of_mem_crossings crossing
  have member := Array.mem_of_getElem? entry
  have turned := Scalar.eps_pos.trans (solid_of_mem_facets made decided member)
  obtain ⟨s, ⟨start', stop'⟩, above, level⟩ :=
    (resolves.side f member e side).above_of_mem_soundings met start stop
  have covers := Facet.covers_of_mem_sides turned side start' stop'
  refine ⟨f, member, (Facet.covers_congr above).2 covers, ?_⟩
  rw [level, Facet.plane_congr above, Facet.plane_of_mem_sides turned.ne' side]

/-- Where a side is crossed there is a crossing, at the elevation of any facet over the place. -/
theorem exists_mem_crossings {f : Facet ℝ} (member : f ∈ r.facets) {e : Point ℝ × Point ℝ}
    (side : e ∈ f.sides) {t s : ℝ} (start : 0 < t) (stop : t < 1) (inside : 0 ≤ s ∧ s ≤ 1)
    (above : (Point.between p q t).Above (Point.between e.1 e.2 s))
    (turn : (q - p).cross (e.2 - e.1) ≠ 0) : ∃ k ∈ r.crossings p q, k.position = t ∧
      k.elevation = f.plane (Point.between p q t) := by
  have turned := Scalar.eps_pos.trans (solid_of_mem_facets made decided member)
  have covers : f.Covers (Point.between p q t) :=
    (Facet.covers_congr above).2 (Facet.covers_of_mem_sides turned side inside.1 inside.2)
  obtain ⟨i, entry⟩ := Array.mem_iff_getElem?.1 member
  have met := (resolves.side f member e side).mem_soundings ⟨start.le, stop.le⟩ inside above turn
  have along : i ∈ r.grid.along p q := by
    obtain ⟨-, -, -, grid⟩ := ofPoints?_eq_some made
    rw [grid]
    have inHull : (Point.between p q t).planar
        ∈ convexHull ℝ {f.a.planar, f.b.planar, f.c.planar} :=
      (mem_convexHull_iff_spans turned).2 covers
    refine Grid.mem_along_of_covers (Grid.stepFor_pos _) ?_ start.le stop.le
      (Facet.covers_of_mem_convexHull inHull)
    simp [entry]
  obtain ⟨l, crossing, near⟩ := exists_near_of_mem_soundings along entry side met
  obtain ⟨j, g, entry', d, side', met'⟩ := exists_of_mem_crossings crossing
  have same : t = l.position := resolves.apart f member e side _ met g
    (Array.mem_of_getElem? entry') d side' l met' near
  subst same
  obtain ⟨g, member', covers', level⟩ :=
    exists_facet_of_mem_crossings made decided resolves crossing start stop
  have planes := plane_eq_of_covers made decided member' member covers' covers
  exact ⟨l, crossing, rfl, level.trans planes⟩

/-- Where a facet stands above the straight line by more than `h`, the line is met at such a
height at an end or at a crossing. -/
theorem exists_crossing_above {f : Facet ℝ} (member : f ∈ r.facets) {t h : ℝ} (start : 0 ≤ t)
    (stop : t ≤ 1) (covers : f.Covers (Point.between p q t))
    (above : (Point.between p q t).z + h < f.plane (Point.between p q t)) :
    ∃ u, (0 ≤ u ∧ u ≤ 1) ∧ f.Covers (Point.between p q u) ∧
      (Point.between p q u).z + h < f.plane (Point.between p q u) ∧
      (u = 0 ∨ u = 1 ∨ ∃ k ∈ r.crossings p q, k.position = u ∧
        k.elevation = f.plane (Point.between p q u)) := by
  have turned := Scalar.eps_pos.trans (solid_of_mem_facets made decided member)
  obtain ⟨e, isEnd, high⟩ := Facet.exists_end_above start stop above
  obtain ⟨k, ⟨forwards, ends⟩, stays, exit⟩ := Facet.exists_exit turned covers (Point.between p q e)
  rw [Point.between_between] at stays exit
  have inside : 0 ≤ t + k * (e - t) ∧ t + k * (e - t) ≤ 1 := by
    rcases isEnd with rfl | rfl <;> constructor <;> nlinarith
  refine ⟨t + k * (e - t), inside, stays, high k forwards ends, ?_⟩
  rcases exit with rfl | ⟨d, side, leaving, s, onSide, meets⟩
  · have atEnd : t + 1 * (e - t) = e := by ring
    rw [atEnd]
    exact isEnd.imp_right .inl
  · by_cases first : t + k * (e - t) = 0
    · exact .inl first
    · by_cases last : t + k * (e - t) = 1
      · exact .inr (.inl last)
      · have turn : (q - p).cross (d.2 - d.1) ≠ 0 := by
          intro parallel
          simp only [Displacement.cross, sub_dx, sub_dy] at parallel
          refine leaving.ne ?_
          simp only [doubleArea, Point.between]
          linear_combination (t - e) * parallel
        exact .inr (.inr (exists_mem_crossings made decided resolves member side
          (inside.1.lt_of_ne (Ne.symm first)) (inside.2.lt_of_ne last) onSide meets turn))

end Resolved

end Relief

end RoadNoise
