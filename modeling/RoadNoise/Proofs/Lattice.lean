/-
# RoadNoise.Proofs.Lattice -- points at whole coordinates

Where all coordinates are whole numbers, areas and powers are whole numbers over whole
numbers, and what the tolerances of a triangulation decide can be computed
(`decided_of_lattice`), and so can the corners of the outermost triangle
(`outerCorners_lattice`).
-/
import RoadNoise.Proofs.Cover
import RoadNoise.Scene.Relief

set_option autoImplicit false

namespace RoadNoise.Lattice

open Triangulation

def area (a b c : ℤ × ℤ) : ℤ := (b.1 - a.1) * (c.2 - a.2) - (c.1 - a.1) * (b.2 - a.2)

/-- The square of a distance. -/
def square (p q : ℤ × ℤ) : ℤ := (p.1 - q.1) * (p.1 - q.1) + (p.2 - q.2) * (p.2 - q.2)

/-- Positive where `p` is in the circle through the corners of a triangle that turns
counter-clockwise. -/
def inCircle (a b c p : ℤ × ℤ) : ℤ :=
  square a p * area p b c + square b p * area a p c + square c p * area a b p

/-- The point at whole coordinates, at elevation zero. -/
noncomputable def point (p : ℤ × ℤ) : Point ℝ := ⟨p.1, p.2, 0⟩

variable {a b c p : ℤ × ℤ} {o : Circle ℝ}

theorem doubleArea_point (a b c : ℤ × ℤ) :
    doubleArea (point a) (point b) (point c) = (area a b c : ℝ) := by
  simp only [doubleArea, point, area]
  push_cast
  ring

theorem power_mul (through : circle? (point a) (point b) (point c) = some o) (p : ℤ × ℤ) :
    o.power (point p) * (area a b c : ℝ) = -(inCircle a b c p : ℝ) := by
  -- against the circle of radius zero around the point
  have balance := o.power_balance ⟨p.1, p.2, 0⟩ (point a) (point b) (point c) (point p)
  obtain ⟨first, second, third⟩ := power_corners through
  rw [first, second, third] at balance
  simp only [doubleArea_point] at balance
  simp only [Circle.power, point, Scalar.sq] at balance ⊢
  simp only [inCircle, square]
  push_cast
  linear_combination -balance

theorem square_mul_area (through : circle? (point a) (point b) (point c) = some o) :
    o.square * (4 * (area a b c : ℝ) ^ 2)
      = (square a b : ℝ) * (square b c : ℝ) * (square c a : ℝ) := by
  have radius := square_mul through
  rw [doubleArea_point] at radius
  simp only [point, Scalar.sq] at radius
  simp only [square]
  push_cast
  linarith

theorem area_ne_zero (through : circle? (point a) (point b) (point c) = some o) :
    area a b c ≠ 0 := by
  have solid := doubleArea_ne_zero through
  rw [doubleArea_point] at solid
  exact_mod_cast solid

/-- The power has the sign that the whole numbers tell. -/
theorem power_mul_sq (through : circle? (point a) (point b) (point c) = some o) (p : ℤ × ℤ) :
    o.power (point p) * (area a b c : ℝ) ^ 2 = -((inCircle a b c p * area a b c : ℤ) : ℝ) := by
  have sign := power_mul through p
  push_cast
  linear_combination (area a b c : ℝ) * sign

theorem sq_area_pos (through : circle? (point a) (point b) (point c) = some o) :
    0 < (area a b c : ℝ) ^ 2 := by
  have solid : (area a b c : ℝ) ≠ 0 := by
    exact_mod_cast area_ne_zero through
  positivity

theorem area_eq_zero_or (a b c : ℤ × ℤ) :
    doubleArea (point a) (point b) (point c) = 0 ∨
      Scalar.eps < |doubleArea (point a) (point b) (point c)| := by
  rw [doubleArea_point]
  by_cases flat : area a b c = 0
  · left
    exact_mod_cast flat
  · right
    have one : (1 : ℝ) ≤ |(area a b c : ℝ)| := by
      exact_mod_cast Int.one_le_abs flat
    linarith [Scalar.eps_lt_one]

/-- A point that is not in the circle is so far out that the tolerance does not reach it. -/
theorem power_nonpos_of_holds (through : circle? (point a) (point b) (point c) = some o)
    (sharp : 0 ≤ inCircle a b c p * area a b c ∨
      square a b * square b c * square c a ≤ 4 * 10 ^ 12 * -(inCircle a b c p * area a b c))
    (near : o.holds (point p) = true) : o.power (point p) ≤ 0 := by
  have positive := sq_area_pos through
  have sign := power_mul_sq through p
  rcases sharp with inside | far
  · have inside : (0 : ℝ) ≤ ((inCircle a b c p * area a b c : ℤ) : ℝ) := by
      exact_mod_cast inside
    by_contra out
    nlinarith [mul_pos (not_le.1 out) positive]
  · exfalso
    rw [Circle.holds_iff] at near
    have far : (square a b : ℝ) * (square b c : ℝ) * (square c a : ℝ)
        ≤ 4 * 10 ^ 12 * -((inCircle a b c p * area a b c : ℤ) : ℝ) := by
      exact_mod_cast far
    rw [← square_mul_area through, ← sign] at far
    have reach := mul_lt_mul_of_pos_right near positive
    norm_num at reach far
    linarith

/-! ## The outermost corners -/

def extend (b : Box ℤ) (p : ℤ × ℤ) : Box ℤ :=
  ⟨min b.xmin p.1, min b.ymin p.2, max b.xmax p.1, max b.ymax p.2⟩

/-- The rectangle around points at whole coordinates, if there are any. -/
def box? : List (ℤ × ℤ) → Option (Box ℤ)
  | [] => none
  | p :: ps => some (ps.foldl extend ⟨p.1, p.2, p.1, p.2⟩)

noncomputable def ofBox (b : Box ℤ) : Box ℝ := ⟨b.xmin, b.ymin, b.xmax, b.ymax⟩

theorem expand_ofBox (b : Box ℤ) (p : ℤ × ℤ) :
    (ofBox b).expand (point p) = ofBox (extend b p) := by
  simp [Box.expand, ofBox, extend, point]

theorem around?_map_point (ps : List (ℤ × ℤ)) :
    Box.around? (ps.map point) = (box? ps).map ofBox := by
  have grown : ∀ (ps : List (ℤ × ℤ)) (b : Box ℤ),
      (ps.map point).foldl Box.expand (ofBox b) = ofBox (ps.foldl extend b) := by
    intro ps
    induction ps with
    | nil =>
        intro b
        rfl
    | cons p ps ih =>
        intro b
        rw [List.map_cons, List.foldl_cons, List.foldl_cons, expand_ofBox, ih]
  cases ps with
  | nil => rfl
  | cons p ps => exact congrArg some (grown ps ⟨p.1, p.2, p.1, p.2⟩)

/-- Where the middle of the rectangle is at whole coordinates, so are the corners of the
outermost triangle. -/
theorem outerCorners_lattice {ps : List (ℤ × ℤ)} {b : Box ℤ} (around : box? ps = some b) (x y : ℤ)
    (middleX : b.xmin + b.xmax = 2 * x) (middleY : b.ymin + b.ymax = 2 * y) {r : ℤ}
    (reach : r = 50 * max (max (b.xmax - b.xmin) (b.ymax - b.ymin)) 1) :
    outerCorners (ps.map point) = [(x - r, y - r), (x + r, y - r), (x, y + r)].map point := by
  have whole : Box.around? (ps.map point) = some (ofBox b) := by
    rw [around?_map_point, around]
    rfl
  have frame : (ofBox b).frame = ((x : ℝ), (y : ℝ), (r : ℝ)) := by
    have half : ∀ {m n k : ℤ}, m + n = 2 * k → ((m : ℝ) + n) * 0.5 = k := by
      intro m n k twice
      have twice : (m : ℝ) + n = 2 * k := by exact_mod_cast twice
      rw [twice]
      ring
    simp only [Box.frame, ofBox, half middleX, half middleY, reach]
    push_cast
    rfl
  rw [outerCorners_eq whole, frame]
  simp [point]

/-! ## What the tolerances decide -/

theorem spread_of_lattice {ps : List (ℤ × ℤ)}
    (wide : ∃ a ∈ ps, ∃ b ∈ ps, ∃ c ∈ ps, area a b c ≠ 0) : Spread (ps.map point) := by
  obtain ⟨a, first, b, second, c, third, solid⟩ := wide
  refine ⟨point a, List.mem_map_of_mem first, point b, List.mem_map_of_mem second, point c,
    List.mem_map_of_mem third, ?_⟩
  rw [doubleArea_point]
  exact_mod_cast solid

theorem decided_of_lattice {ps os : List (ℤ × ℤ)}
    (outer : outerCorners (ps.map point) = os.map point)
    (sharp : ∀ a ∈ ps ++ os, ∀ b ∈ ps ++ os, ∀ c ∈ ps ++ os, ∀ p ∈ ps,
      0 ≤ inCircle a b c p * area a b c ∨
        square a b * square b c * square c a ≤ 4 * 10 ^ 12 * -(inCircle a b c p * area a b c)) :
    Decided (ps.map point) := by
  have known : ∀ q, q ∈ ps.map point ++ outerCorners (ps.map point) →
      ∃ e ∈ ps ++ os, point e = q := by
    intro q member
    rw [outer, ← List.map_append] at member
    exact List.mem_map.1 member
  constructor
  · intro a first b second c third
    obtain ⟨a, -, rfl⟩ := known a first
    obtain ⟨b, -, rfl⟩ := known b second
    obtain ⟨c, -, rfl⟩ := known c third
    exact area_eq_zero_or a b c
  · intro a first b second c third o through p member near
    obtain ⟨a, memA, rfl⟩ := known a first
    obtain ⟨b, memB, rfl⟩ := known b second
    obtain ⟨c, memC, rfl⟩ := known c third
    obtain ⟨p, memP, rfl⟩ := List.mem_map.1 member
    exact power_nonpos_of_holds through (sharp a memA b memB c memC p memP) near

theorem clear_of_lattice {ps os : List (ℤ × ℤ)}
    (outer : outerCorners (ps.map point) = os.map point)
    (clear : ∀ a ∈ ps, ∀ b ∈ ps, ∀ c ∈ ps, area a b c ≠ 0 →
      ∀ s ∈ os, inCircle a b c s * area a b c < 0) :
    ∀ o, EmptyCircle (ps.map point) o → ∀ s ∈ outerCorners (ps.map point), 0 < o.power s := by
  rintro o ⟨⟨a, first, b, second, c, third, through⟩, -⟩ s corner
  rw [outer] at corner
  obtain ⟨a, memA, rfl⟩ := List.mem_map.1 first
  obtain ⟨b, memB, rfl⟩ := List.mem_map.1 second
  obtain ⟨c, memC, rfl⟩ := List.mem_map.1 third
  obtain ⟨s, memS, rfl⟩ := List.mem_map.1 corner
  have out : ((inCircle a b c s * area a b c : ℤ) : ℝ) < 0 := by
    exact_mod_cast clear a memA b memB c memC (area_ne_zero through) s memS
  have sign := power_mul_sq through s
  exact pos_of_mul_pos_left (by linarith : 0 < o.power (point s) * (area a b c : ℝ) ^ 2)
    (sq_area_pos through).le

theorem delaunay?_lattice_eq_none {ps os : List (ℤ × ℤ)}
    (outer : outerCorners (ps.map point) = os.map point) (decided : Decided (ps.map point))
    (reached : ∀ a ∈ ps, ∀ b ∈ ps, ∀ c ∈ ps, area a b c ≠ 0 →
      ∃ s ∈ os, 0 < inCircle a b c s * area a b c) : delaunay? (ps.map point) = none := by
  refine delaunay?_eq_none decided fun a first b second c third o through => ?_
  obtain ⟨a, memA, rfl⟩ := List.mem_map.1 first
  obtain ⟨b, memB, rfl⟩ := List.mem_map.1 second
  obtain ⟨c, memC, rfl⟩ := List.mem_map.1 third
  obtain ⟨s, memS, inner⟩ := reached a memA b memB c memC (area_ne_zero through)
  refine ⟨point s, by rw [outer]; exact List.mem_map_of_mem memS, ?_⟩
  have inner : (0 : ℝ) < ((inCircle a b c s * area a b c : ℤ) : ℝ) := by
    exact_mod_cast inner
  have sign := power_mul_sq through s
  by_contra out
  nlinarith [mul_nonneg (not_lt.1 out) (sq_area_pos through).le]

theorem verticesOf_eq_self {points : List (Point ℝ)}
    (ordered : points.Pairwise fun p q => (Point.order p q).isLE = true)
    (told : points.Pairwise fun p q => p.samePlanar q = false) :
    Relief.verticesOf points = points := by
  rw [Relief.verticesOf, Sequence.sortOn, List.mergeSort_of_pairwise ordered]
  refine Sequence.thin_eq_self (told.imp fun {p q} apart => ?_)
  rwa [Point.samePlanar_comm]

section Sorted

variable {ps : List (ℤ × ℤ)} (sorted : ps.Pairwise fun p q => p.1 < q.1 ∨ p.1 = q.1 ∧ p.2 < q.2)

include sorted

theorem ordered_of_sorted :
    ps.Pairwise fun p q => (Point.order (point p) (point q)).isLE = true := by
  refine sorted.imp fun {p q} before => ?_
  rw [Point.order, Sequence.isLE_then_iff]
  rcases before with west | ⟨same, south⟩
  · exact .inl (Int.cast_lt.2 west)
  · exact .inr ⟨congrArg Int.cast same, Int.cast_le.2 south.le⟩

theorem told_of_sorted : ps.Pairwise fun p q => (point p).samePlanar (point q) = false := by
  have apart : ∀ m n : ℤ, m < n → Scalar.near (m : ℝ) (n : ℝ) = false := by
    intro m n below
    rw [Scalar.near_eq_false_iff]
    have one : (1 : ℝ) ≤ |(m : ℝ) - n| := by
      exact_mod_cast Int.one_le_abs (sub_ne_zero.2 below.ne)
    linarith [Scalar.eps_lt_one]
  refine sorted.imp fun {p q} before => ?_
  rcases before with west | ⟨-, south⟩
  · simp [Point.samePlanar, point, apart _ _ west]
  · simp [Point.samePlanar, point, apart _ _ south]

/-- Points at different whole coordinates, given in their order, are the vertices. -/
theorem verticesOf_lattice : Relief.verticesOf (ps.map point) = ps.map point ∧
    (ps.map point).Pairwise fun p q => p.samePlanar q = false := by
  have told : (ps.map point).Pairwise fun p q => p.samePlanar q = false :=
    List.pairwise_map.2 (told_of_sorted sorted)
  exact ⟨verticesOf_eq_self (List.pairwise_map.2 (ordered_of_sorted sorted)) told, told⟩

end Sorted

end RoadNoise.Lattice
