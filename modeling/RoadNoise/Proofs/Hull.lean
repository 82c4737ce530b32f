/-
# RoadNoise.Proofs.Hull -- places in the convex hull

A place of the convex hull of some points that is on no line through two of them lies
within a triangle of three of them (`exists_within_of_mem_hull`), and within one whose
circle is empty (`exists_empty_of_mem_hull`): of all triangles around the place take
that with the greatest power there.  Places on no line are dense in the hull, so what
is closed and has them all has the hull (`hull_subset_of_generic`).
-/
import RoadNoise.Proofs.Distance
import RoadNoise.Proofs.Winding

set_option autoImplicit false

namespace RoadNoise

open Triangulation

/-! ## Places in the plane -/

def Point.planar (p : Point ℝ) : ℝ × ℝ := (p.x, p.y)

/-- The point of a plane at elevation zero. -/
def spot (x : ℝ × ℝ) : Point ℝ := ⟨x.1, x.2, 0⟩

def hull (points : List (Point ℝ)) : Set (ℝ × ℝ) :=
  convexHull ℝ (Point.planar '' {p | p ∈ points})

section Places

variable {a b c p q : Point ℝ} {x : ℝ × ℝ}

theorem doubleArea_spot (p q : Point ℝ) (x : ℝ × ℝ) :
    doubleArea p q (spot x) = (q.x - p.x) * (x.2 - p.y) - (x.1 - p.x) * (q.y - p.y) := rfl

theorem doubleArea_planar (p q r : Point ℝ) : doubleArea p q (spot r.planar) = doubleArea p q r :=
  rfl

theorem continuous_doubleArea (p q : Point ℝ) : Continuous fun x => doubleArea p q (spot x) := by
  simp only [doubleArea_spot]
  fun_prop

theorem doubleArea_combo (p q : Point ℝ) (x y : ℝ × ℝ) {u v : ℝ} (whole : u + v = 1) :
    doubleArea p q (spot (u • x + v • y))
      = u * doubleArea p q (spot x) + v * doubleArea p q (spot y) := by
  obtain rfl : v = 1 - u := by linarith
  simp only [doubleArea_spot, Prod.fst_add, Prod.snd_add, Prod.smul_fst, Prod.smul_snd,
    smul_eq_mul]
  ring

theorem convex_left (p q : Point ℝ) : Convex ℝ {x | 0 ≤ doubleArea p q (spot x)} := by
  intro x left y right u v first second whole
  rw [Set.mem_ofPred_eq, doubleArea_combo p q x y whole]
  exact add_nonneg (mul_nonneg first left) (mul_nonneg second right)

theorem mem_convexHull_of_weights {s : Set (ℝ × ℝ)} {u v w : ℝ × ℝ} (first : u ∈ s)
    (second : v ∈ s) (third : w ∈ s) {k l m : ℝ} (hk : 0 ≤ k) (hl : 0 ≤ l) (hm : 0 ≤ m)
    (whole : k + l + m = 1) : k • u + l • v + m • w ∈ convexHull ℝ s := by
  have combination : ∑ i, (![k, l, m] : Fin 3 → ℝ) i • (![u, v, w] : Fin 3 → ℝ × ℝ) i
      ∈ convexHull ℝ s := by
    refine (convex_convexHull ℝ s).sum_mem ?_ ?_ ?_
    · intro i _
      fin_cases i <;> simpa
    · simpa [Fin.sum_univ_three] using whole
    · intro i _
      refine subset_convexHull ℝ s ?_
      fin_cases i <;> simpa
  simpa [Fin.sum_univ_three] using combination

/-- A triangle that turns counter-clockwise is the hull of its corners. -/
theorem mem_convexHull_iff_spans (turned : 0 < doubleArea a b c) :
    x ∈ convexHull ℝ {a.planar, b.planar, c.planar} ↔ Spans a b c (spot x) := by
  constructor
  · intro inside
    have convex : Convex ℝ {x | Spans a b c (spot x)} :=
      (convex_left a b).inter ((convex_left b c).inter (convex_left c a))
    refine convexHull_min ?_ convex inside
    have rotate : doubleArea b c a = doubleArea a b c := doubleArea_rotate a b c
    have rotate' : doubleArea c a b = doubleArea a b c := (doubleArea_rotate c a b).symm
    rintro y (rfl | rfl | rfl) <;>
      simp [Spans, doubleArea_planar, rotate, rotate', turned.le]
  · rintro ⟨first, second, third⟩
    have sum := doubleArea_sum a b c (spot x)
    have solid := turned.ne'
    have member := mem_convexHull_of_weights (s := {a.planar, b.planar, c.planar})
      (u := a.planar) (v := b.planar) (w := c.planar) (by simp) (by simp) (by simp)
      (div_nonneg second turned.le) (div_nonneg third turned.le) (div_nonneg first turned.le)
      (by rw [← add_div, ← add_div, div_eq_one_iff_eq solid]; linarith)
    convert member using 1
    refine Prod.ext ?_ ?_
    · simp only [Point.planar, Prod.fst_add, Prod.smul_fst, smul_eq_mul]
      field_simp
      simp only [doubleArea, spot]
      ring
    · simp only [Point.planar, Prod.snd_add, Prod.smul_snd, smul_eq_mul]
      field_simp
      simp only [doubleArea, spot]
      ring

end Places

/-! ## Places on no line -/

/-- The place is on no line through two of the points. -/
def Generic (points : List (Point ℝ)) (x : ℝ × ℝ) : Prop :=
  ∀ a ∈ points, ∀ b ∈ points, a.planar ≠ b.planar → doubleArea a b (spot x) ≠ 0

theorem run_pos {u v : ℝ × ℝ} (apart : u ≠ v) :
    0 < (v.1 - u.1) * (v.1 - u.1) + (v.2 - u.2) * (v.2 - u.2) := by
  by_contra same
  have flat := not_lt.1 same
  refine apart (Prod.ext ?_ ?_)
  · nlinarith [mul_self_nonneg (v.1 - u.1), mul_self_nonneg (v.2 - u.2)]
  · nlinarith [mul_self_nonneg (v.1 - u.1), mul_self_nonneg (v.2 - u.2)]

theorem Point.planarDistance_pos {p q : Point ℝ} (apart : p.planar ≠ q.planar) :
    0 < p.planarDistance q := by
  rw [planarDistance_eq, sq, sq]
  exact Real.sqrt_pos.2 (run_pos apart)

theorem dense_off_line {a b : Point ℝ} (apart : a.planar ≠ b.planar) :
    Dense {x | doubleArea a b (spot x) ≠ 0} := by
  have run : 0 < (b.x - a.x) * (b.x - a.x) + (b.y - a.y) * (b.y - a.y) := run_pos apart
  refine dense_iff_inter_open.2 fun u isOpen ⟨x, inside⟩ => ?_
  by_cases onLine : doubleArea a b (spot x) = 0
  · -- a step straight away from the line leaves it
    have way : Continuous fun k : ℝ => (x.1 - k * (b.y - a.y), x.2 + k * (b.x - a.x)) := by
      fun_prop
    have near : ∀ᶠ k in nhdsWithin (0 : ℝ) {0}ᶜ,
        (x.1 - k * (b.y - a.y), x.2 + k * (b.x - a.x)) ∈ u := by
      refine nhdsWithin_le_nhds (way.continuousAt.eventually_mem (isOpen.mem_nhds ?_))
      simpa using inside
    obtain ⟨k, member, step⟩ := (near.and self_mem_nhdsWithin).exists
    refine ⟨_, member, ?_⟩
    have moved : doubleArea a b (spot (x.1 - k * (b.y - a.y), x.2 + k * (b.x - a.x)))
        = doubleArea a b (spot x)
          + k * ((b.x - a.x) * (b.x - a.x) + (b.y - a.y) * (b.y - a.y)) := by
      simp only [doubleArea_spot]
      ring
    show doubleArea a b _ ≠ 0
    rw [moved, onLine, zero_add]
    exact mul_ne_zero step run.ne'
  · exact ⟨x, inside, onLine⟩

theorem dense_generic (points : List (Point ℝ)) : Dense {x | Generic points x} := by
  let pairs : Set (Point ℝ × Point ℝ) :=
    {e | (e.1 ∈ points ∧ e.2 ∈ points) ∧ e.1.planar ≠ e.2.planar}
  have finite : pairs.Finite :=
    ((points.finite_toSet).prod (points.finite_toSet)).subset fun e pair => pair.1
  have dense : Dense (⋂ e ∈ pairs, {x | doubleArea e.1 e.2 (spot x) ≠ 0}) :=
    dense_biInter_of_isOpen
      (fun e _ => isOpen_ne_fun (continuous_doubleArea e.1 e.2) continuous_const)
      finite.countable fun e pair => dense_off_line pair.2
  refine dense.mono fun x generic a first b second apart => ?_
  exact Set.mem_iInter₂.1 generic (a, b) ⟨⟨first, second⟩, apart⟩

section Hulls

variable {points : List (Point ℝ)} {a b c d : Point ℝ} {x : ℝ × ℝ}

theorem planar_mem_hull (member : a ∈ points) : a.planar ∈ hull points :=
  subset_convexHull ℝ _ ⟨a, member, rfl⟩

theorem convexHull_subset_hull (first : a ∈ points) (second : b ∈ points) (third : c ∈ points) :
    convexHull ℝ {a.planar, b.planar, c.planar} ⊆ hull points := by
  refine convexHull_mono ?_
  rintro y (rfl | rfl | rfl)
  · exact ⟨a, first, rfl⟩
  · exact ⟨b, second, rfl⟩
  · exact ⟨c, third, rfl⟩

theorem isOpen_within (a b c : Point ℝ) : IsOpen {x | Within a b c (spot x)} := by
  refine (isOpen_lt continuous_const (continuous_doubleArea a b)).inter
    ((isOpen_lt continuous_const (continuous_doubleArea b c)).inter
      (isOpen_lt continuous_const (continuous_doubleArea c a)))

theorem exists_within (turned : 0 < doubleArea a b c) : ∃ x : ℝ × ℝ, Within a b c (spot x) := by
  refine ⟨((a.x + b.x + c.x) / 3, (a.y + b.y + c.y) / 3), ?_, ?_, ?_⟩ <;>
    simp only [doubleArea, spot] at turned ⊢ <;> linarith

theorem spans_of_within {y : Point ℝ} (within : Within a b c y) : Spans a b c y :=
  ⟨within.1.le, within.2.1.le, within.2.2.le⟩

theorem turned_of_spans {y : Point ℝ} (spans : Within a b c y) : 0 < doubleArea a b c := by
  have sum := doubleArea_sum a b c y
  linarith [spans.1, spans.2.1, spans.2.2]

theorem interior_hull_nonempty (first : a ∈ points) (second : b ∈ points) (third : c ∈ points)
    (turned : 0 < doubleArea a b c) : (interior (hull points)).Nonempty := by
  obtain ⟨x, within⟩ := exists_within turned
  refine ⟨x, mem_interior.2 ⟨_, ?_, isOpen_within a b c, within⟩⟩
  intro y inside
  exact convexHull_subset_hull first second third
    ((mem_convexHull_iff_spans turned).2 (spans_of_within inside))

/-- What is closed and has the places on no line has the hull. -/
theorem hull_subset_of_generic (inner : (interior (hull points)).Nonempty) (ps : List (Point ℝ))
    {k : Set (ℝ × ℝ)} (closed : IsClosed k) (generic : ∀ x ∈ hull points, Generic ps x → x ∈ k) :
    hull points ⊆ k := by
  have convex : Convex ℝ (hull points) := convex_convexHull ℝ _
  calc hull points ⊆ closure (hull points) := subset_closure
    _ = closure (interior (hull points)) :=
        (convex.closure_interior_eq_closure_of_nonempty_interior inner).symm
    _ ⊆ closure (interior (hull points) ∩ {x | Generic ps x}) :=
        closure_minimal ((dense_generic ps).open_subset_closure_inter isOpen_interior)
          isClosed_closure
    _ ⊆ closure k := closure_mono fun x both => generic x (interior_subset both.1) both.2
    _ = k := closed.closure_eq

/-! ## Triangles around a place -/

theorem convex_line (p q : Point ℝ) : Convex ℝ {x | doubleArea p q (spot x) = 0} := by
  intro x onX y onY u v _ _ whole
  rw [Set.mem_ofPred_eq] at *
  rw [doubleArea_combo p q x y whole, onX, onY, mul_zero, mul_zero, add_zero]

/-- Three points on a line have no generic place between them. -/
theorem not_generic_of_flat (first : a ∈ points) (second : b ∈ points) (third : c ∈ points)
    (spread : ∃ d ∈ points, a.planar ≠ d.planar) (flat : doubleArea a b c = 0)
    (inside : x ∈ convexHull ℝ {a.planar, b.planar, c.planar}) : ¬Generic points x := by
  -- two of the three may share their place, or all of them
  have line : ∃ p ∈ points, ∃ q ∈ points, p.planar ≠ q.planar ∧
      ∀ y ∈ ({a.planar, b.planar, c.planar} : Set (ℝ × ℝ)), doubleArea p q (spot y) = 0 := by
    by_cases sameB : a.planar = b.planar
    · by_cases sameC : a.planar = c.planar
      · obtain ⟨d, other, apart⟩ := spread
        refine ⟨a, first, d, other, apart, ?_⟩
        rw [← sameB, ← sameC]
        simp [doubleArea_planar]
      · refine ⟨a, first, c, third, sameC, ?_⟩
        rw [← sameB]
        simp [doubleArea_planar]
    · refine ⟨a, first, b, second, sameB, ?_⟩
      simp [doubleArea_planar, flat]
  obtain ⟨p, memP, q, memQ, apart, onLine⟩ := line
  intro generic
  exact generic p memP q memQ apart (convexHull_min onLine (convex_line p q) inside)

theorem planar_ne_of_turned (turned : 0 < doubleArea a b c) : a.planar ≠ b.planar := by
  intro same
  have flat : doubleArea a b c = doubleArea a a c := by
    obtain ⟨x, y⟩ := Prod.ext_iff.1 same
    simp only [Point.planar] at x y
    simp only [doubleArea, x, y]
  rw [flat, doubleArea_same] at turned
  exact lt_irrefl _ turned

/-- A generic place of a triangle lies off its sides. -/
theorem within_of_spans (first : a ∈ points) (second : b ∈ points) (third : c ∈ points)
    (turned : 0 < doubleArea a b c) (generic : Generic points x) (spans : Spans a b c (spot x)) :
    Within a b c (spot x) := by
  have turned' : 0 < doubleArea b c a := by rwa [doubleArea_rotate]
  have turned'' : 0 < doubleArea c a b := by rwa [doubleArea_rotate]
  exact ⟨lt_of_le_of_ne spans.1 (generic a first b second (planar_ne_of_turned turned)).symm,
    lt_of_le_of_ne spans.2.1 (generic b second c third (planar_ne_of_turned turned')).symm,
    lt_of_le_of_ne spans.2.2 (generic c third a first (planar_ne_of_turned turned'')).symm⟩

theorem exists_convexHull_of_mem_hull (inside : x ∈ hull points) :
    ∃ a ∈ points, ∃ b ∈ points, ∃ c ∈ points,
      x ∈ convexHull ℝ {a.planar, b.planar, c.planar} := by
  rw [hull, convexHull_eq_union] at inside
  simp only [Set.mem_iUnion, exists_prop] at inside
  obtain ⟨t, sub, independent, inside⟩ := inside
  have few : t.card ≤ 3 := by
    have bound := independent.card_le_finrank_succ
    have plane := Submodule.finrank_le (vectorSpan ℝ (Set.range ((↑) : t → ℝ × ℝ)))
    simp only [Module.finrank_prod, Module.finrank_self, Fintype.card_coe] at bound plane
    omega
  have some_ : t.Nonempty := by
    rw [Finset.nonempty_iff_ne_empty]
    rintro rfl
    simp at inside
  have three : ∃ u ∈ t, ∃ v ∈ t, ∃ w ∈ t, (t : Set (ℝ × ℝ)) ⊆ {u, v, w} := by
    have positive := some_.card_pos
    interval_cases size : t.card
    · obtain ⟨u, rfl⟩ := Finset.card_eq_one.1 size
      exact ⟨u, by simp, u, by simp, u, by simp, by simp⟩
    · obtain ⟨u, v, -, rfl⟩ := Finset.card_eq_two.1 size
      exact ⟨u, by simp, v, by simp, v, by simp, by simp⟩
    · obtain ⟨u, v, w, -, -, -, rfl⟩ := Finset.card_eq_three.1 size
      exact ⟨u, by simp, v, by simp, w, by simp, by simp⟩
  obtain ⟨u, memU, v, memV, w, memW, all⟩ := three
  obtain ⟨a, first, rfl⟩ := sub memU
  obtain ⟨b, second, rfl⟩ := sub memV
  obtain ⟨c, third, rfl⟩ := sub memW
  exact ⟨a, first, b, second, c, third, convexHull_mono all inside⟩

theorem exists_within_of_mem_hull (spread : ∀ a ∈ points, ∃ d ∈ points, a.planar ≠ d.planar)
    (generic : Generic points x) (inside : x ∈ hull points) :
    ∃ a ∈ points, ∃ b ∈ points, ∃ c ∈ points, Within a b c (spot x) := by
  obtain ⟨a, first, b, second, c, third, inside⟩ := exists_convexHull_of_mem_hull inside
  by_cases flat : doubleArea a b c = 0
  · exact absurd generic
      (not_generic_of_flat first second third (spread a first) flat inside)
  · rcases turned_or_turned_swap flat with left | right
    · rw [mem_convexHull_iff_spans left] at inside
      exact ⟨a, first, b, second, c, third, within_of_spans first second third left generic inside⟩
    · rw [Set.insert_comm, mem_convexHull_iff_spans right] at inside
      exact ⟨b, second, a, first, c, third,
        within_of_spans second first third right generic inside⟩

/-- One of the corners of a triangle around a place gives way to another point. -/
theorem within_of_within {y : Point ℝ} (within : Within a b c y) (offA : doubleArea a d y ≠ 0)
    (offB : doubleArea b d y ≠ 0) (offC : doubleArea c d y ≠ 0) :
    Within a b d y ∨ Within b c d y ∨ Within c a d y := by
  obtain ⟨first, second, third⟩ := within
  have back : ∀ p, doubleArea d p y = -doubleArea p d y := fun p => doubleArea_swap p d y
  have balance : doubleArea b c y * doubleArea a d y + doubleArea c a y * doubleArea b d y
      + doubleArea a b y * doubleArea c d y = 0 := by
    simp only [doubleArea]
    ring
  simp only [Within, back, neg_pos]
  -- the three signs are not all the same, so somewhere around they change
  rcases lt_or_gt_of_ne offA with downA | upA <;> rcases lt_or_gt_of_ne offB with downB | upB <;>
    rcases lt_or_gt_of_ne offC with downC | upC
  · nlinarith [mul_pos second (neg_pos.2 downA), mul_pos third (neg_pos.2 downB),
      mul_pos first (neg_pos.2 downC)]
  · exact .inr (.inl ⟨second, upC, downB⟩)
  · exact .inl ⟨first, upB, downA⟩
  · exact .inl ⟨first, upB, downA⟩
  · exact .inr (.inr ⟨third, upA, downC⟩)
  · exact .inr (.inl ⟨second, upC, downB⟩)
  · exact .inr (.inr ⟨third, upA, downC⟩)
  · nlinarith [mul_pos second upA, mul_pos third upB, mul_pos first upC]

/-- A point in the circle of a triangle makes a triangle with a greater power at the places
that they share. -/
theorem power_lt_of_within {o o' : Circle ℝ} {y : Point ℝ} (first : o.power a = 0)
    (second : o.power b = 0) (through : circle? a b d = some o') (inner : o.power d < 0)
    (within : Within a b d y) : o.power y < o'.power y := by
  obtain ⟨first', second', third'⟩ := power_corners through
  have pencil := Circle.power_pencil (first.trans first'.symm) (second.trans second'.symm) y d
  rw [third', zero_sub] at pencil
  have weighed := mul_pos (neg_pos.2 inner) within.1
  rw [← pencil] at weighed
  linarith [pos_of_mul_pos_left weighed (turned_of_spans within).le]

section Greatest

variable (round : ∀ a ∈ points, ∀ b ∈ points, ∀ c ∈ points, doubleArea a b c ≠ 0 →
  ∃ o, circle? a b c = some o)
include round

theorem exists_greater_power (generic : Generic points x) (first : a ∈ points) (second : b ∈ points)
    (third : c ∈ points) {o : Circle ℝ} (through : circle? a b c = some o)
    (within : Within a b c (spot x)) (member : d ∈ points) (inner : o.power d < 0) :
    ∃ p ∈ points, ∃ q ∈ points, ∃ o', circle? p q d = some o' ∧ Within p q d (spot x) ∧
      o.power (spot x) < o'.power (spot x) := by
  obtain ⟨onA, onB, onC⟩ := power_corners through
  have apart : ∀ e, o.power e = 0 → e.planar ≠ d.planar := by
    intro e onE same
    have equal : o.power e = o.power d := by
      obtain ⟨sameX, sameY⟩ := Prod.ext_iff.1 same
      simp only [Point.planar] at sameX sameY
      simp only [Circle.power, sameX, sameY]
    linarith
  have better : ∀ p ∈ points, ∀ q ∈ points, o.power p = 0 → o.power q = 0 →
      Within p q d (spot x) → ∃ o', circle? p q d = some o' ∧ Within p q d (spot x) ∧
        o.power (spot x) < o'.power (spot x) := by
    intro p memP q memQ onP onQ around
    obtain ⟨o', through'⟩ := round p memP q memQ d member (turned_of_spans around).ne'
    exact ⟨o', through', around, power_lt_of_within onP onQ through' inner around⟩
  rcases within_of_within within (generic a first d member (apart a onA))
    (generic b second d member (apart b onB)) (generic c third d member (apart c onC)) with
    around | around | around
  · exact ⟨a, first, b, second, better a first b second onA onB around⟩
  · exact ⟨b, second, c, third, better b second c third onB onC around⟩
  · exact ⟨c, third, a, first, better c third a first onC onA around⟩

/-- The triangle around a generic place with the greatest power there has an empty circle. -/
theorem exists_empty_of_mem_hull (spread : ∀ a ∈ points, ∃ d ∈ points, a.planar ≠ d.planar)
    (generic : Generic points x) (inside : x ∈ hull points) :
    ∃ a ∈ points, ∃ b ∈ points, ∃ c ∈ points, ∃ o, circle? a b c = some o ∧
      Within a b c (spot x) ∧ ∀ p ∈ points, 0 ≤ o.power p := by
  let around : Set (Point ℝ × Point ℝ × Point ℝ) := {e | (e.1 ∈ points ∧ e.2.1 ∈ points ∧
    e.2.2 ∈ points) ∧ Within e.1 e.2.1 e.2.2 (spot x)}
  have finite : around.Finite :=
    ((points.finite_toSet).prod ((points.finite_toSet).prod (points.finite_toSet))).subset
      fun e member => member.1
  have some_ : around.Nonempty := by
    obtain ⟨a, first, b, second, c, third, within⟩ :=
      exists_within_of_mem_hull spread generic inside
    exact ⟨(a, b, c), ⟨first, second, third⟩, within⟩
  obtain ⟨⟨a, b, c⟩, ⟨⟨first, second, third⟩, within⟩, greatest⟩ := around.exists_max_image
    (fun e => ((circle? e.1 e.2.1 e.2.2).map (·.power (spot x))).getD 0) finite some_
  obtain ⟨o, through⟩ := round a first b second c third (turned_of_spans within).ne'
  refine ⟨a, first, b, second, c, third, o, through, within, fun d member => ?_⟩
  by_contra inner
  obtain ⟨p, memP, q, memQ, o', through', better, greater⟩ := exists_greater_power round generic
    first second third through within member (not_le.1 inner)
  have less := greatest (p, q, d) ⟨⟨memP, memQ, member⟩, better⟩
  simp only [through, through', Option.map_some, Option.getD_some] at less
  exact absurd greater (not_lt.2 less)

end Greatest

end Hulls

end RoadNoise
