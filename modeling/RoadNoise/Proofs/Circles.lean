/-
# RoadNoise.Proofs.Circles -- points in and out of circles

The power of a point is negative in a circle, zero on it and positive outside.  The
powers of one point in two circles differ by an affine function of the point, so the
difference is known from three corners (`power_balance`), and from one point once
both circles pass through two others (`power_pencil`).  The steps of a triangulation
are argued with these two facts.
-/
import RoadNoise.Proofs.Exact
import RoadNoise.Plane.Triangulation

set_option autoImplicit false

namespace RoadNoise

/-! ## Areas -/

section Areas

variable (a b c x : Point ℝ)

theorem doubleArea_rotate : doubleArea b c a = doubleArea a b c := by
  simp only [doubleArea]
  ring

theorem doubleArea_swap : doubleArea b a c = -doubleArea a b c := by
  simp only [doubleArea]
  ring

/-- Off a line, three points turn counter-clockwise in one of two orders. -/
theorem turned_or_turned_swap {a b c : Point ℝ} (solid : doubleArea a b c ≠ 0) :
    0 < doubleArea a b c ∨ 0 < doubleArea b a c := by
  rw [doubleArea_swap a b c, neg_pos]
  exact (lt_or_gt_of_ne solid).symm

theorem doubleArea_sum :
    doubleArea a b x + doubleArea b c x + doubleArea c a x = doubleArea a b c := by
  simp only [doubleArea]
  ring

@[simp] theorem doubleArea_left : doubleArea a b a = 0 := by
  simp only [doubleArea]
  ring

@[simp] theorem doubleArea_right : doubleArea a b b = 0 := by
  simp only [doubleArea]
  ring

@[simp] theorem doubleArea_same : doubleArea a a b = 0 := by
  simp only [doubleArea]
  ring

end Areas

namespace Triangulation

/-! ## Powers -/

/-- The square distance from the centre less the square of the radius. -/
noncomputable def Circle.power (o : Circle ℝ) (p : Point ℝ) : ℝ :=
  Scalar.sq (o.x - p.x) + Scalar.sq (o.y - p.y) - o.square

namespace Circle

variable (o o' : Circle ℝ) {a b : Point ℝ}

theorem holds_iff (p : Point ℝ) : o.holds p = true ↔ o.power p < o.square * 1e-12 := by
  simp only [holds, power, decide_eq_true_eq]
  constructor <;> intro near <;> linarith

/-- The powers of a place in two circles, from those of three points around it. -/
theorem power_balance (a b c x : Point ℝ) :
    (o'.power x - o.power x) * doubleArea a b c
      = (o'.power a - o.power a) * doubleArea x b c
        + (o'.power b - o.power b) * doubleArea a x c
        + (o'.power c - o.power c) * doubleArea a b x := by
  simp only [power, Scalar.sq, doubleArea]
  ring

variable {o o'}

/-- Where two circles pass through `a` and `b`, their powers differ in proportion to the
distance from the line. -/
theorem power_pencil (first : o.power a = o'.power a) (second : o.power b = o'.power b)
    (v w : Point ℝ) :
    (o'.power v - o.power v) * doubleArea a b w = (o'.power w - o.power w) * doubleArea a b v := by
  have balance := o.power_balance o' a b w v
  rw [first, second] at balance
  linarith

/-- Circles with the same powers at three corners are the same. -/
theorem power_eq_of_corners {c : Point ℝ} (solid : doubleArea a b c ≠ 0)
    (first : o.power a = o'.power a) (second : o.power b = o'.power b)
    (third : o.power c = o'.power c) (x : Point ℝ) : o.power x = o'.power x := by
  have balance := o.power_balance o' a b c x
  rw [first, second, third] at balance
  have zero : (o'.power x - o.power x) * doubleArea a b c = 0 := by linarith
  rcases mul_eq_zero.1 zero with equal | flat
  · linarith
  · exact absurd flat solid

end Circle

/-! ## The circle through three points -/

variable {a b c : Point ℝ} {o : Circle ℝ}

theorem circle?_eq_some_iff : circle? a b c = some o ↔ Scalar.eps ≤ |2 * doubleArea a b c| ∧
    o.x = ((a.x * a.x + a.y * a.y) * (b.y - c.y) + (b.x * b.x + b.y * b.y) * (c.y - a.y)
      + (c.x * c.x + c.y * c.y) * (a.y - b.y)) / (2 * doubleArea a b c) ∧
    o.y = ((a.x * a.x + a.y * a.y) * (c.x - b.x) + (b.x * b.x + b.y * b.y) * (a.x - c.x)
      + (c.x * c.x + c.y * c.y) * (b.x - a.x)) / (2 * doubleArea a b c) ∧
    o.square = Scalar.sq (a.x - o.x) + Scalar.sq (a.y - o.y) := by
  have area : 2 * (a.x * (b.y - c.y) + b.x * (c.y - a.y) + c.x * (a.y - b.y))
      = 2 * doubleArea a b c := by
    simp only [doubleArea]
    ring
  obtain ⟨x, y, square⟩ := o
  unfold circle?
  dsimp only
  split_ifs with flat
  · have flat : |2 * (a.x * (b.y - c.y) + b.x * (c.y - a.y) + c.x * (a.y - b.y))|
      < Scalar.eps := flat
    rw [area] at flat
    exact iff_of_false (by simp) fun ⟨solid, _⟩ => absurd flat (not_lt.2 solid)
  · have solid : ¬|2 * (a.x * (b.y - c.y) + b.x * (c.y - a.y) + c.x * (a.y - b.y))|
      < Scalar.eps := flat
    rw [area] at solid
    simp only [Option.some.injEq, Circle.mk.injEq, not_lt.1 solid, true_and]
    erw [area]
    constructor
    · rintro ⟨rfl, rfl, rfl⟩
      exact ⟨rfl, rfl, rfl⟩
    · rintro ⟨rfl, rfl, rfl⟩
      exact ⟨rfl, rfl, rfl⟩

theorem exists_circle? (solid : Scalar.eps < |doubleArea a b c|) : ∃ o, circle? a b c = some o := by
  let x := ((a.x * a.x + a.y * a.y) * (b.y - c.y) + (b.x * b.x + b.y * b.y) * (c.y - a.y)
    + (c.x * c.x + c.y * c.y) * (a.y - b.y)) / (2 * doubleArea a b c)
  let y := ((a.x * a.x + a.y * a.y) * (c.x - b.x) + (b.x * b.x + b.y * b.y) * (a.x - c.x)
    + (c.x * c.x + c.y * c.y) * (b.x - a.x)) / (2 * doubleArea a b c)
  refine ⟨⟨x, y, Scalar.sq (a.x - x) + Scalar.sq (a.y - y)⟩,
    circle?_eq_some_iff.2 ⟨?_, rfl, rfl, rfl⟩⟩
  rw [abs_mul, abs_two]
  linarith [abs_nonneg (doubleArea a b c)]

theorem doubleArea_ne_zero (through : circle? a b c = some o) : doubleArea a b c ≠ 0 := by
  intro flat
  have solid := (circle?_eq_some_iff.1 through).1
  rw [flat, mul_zero, abs_zero] at solid
  linarith [Scalar.eps_pos]

theorem power_corners (through : circle? a b c = some o) :
    o.power a = 0 ∧ o.power b = 0 ∧ o.power c = 0 := by
  have solid := doubleArea_ne_zero through
  obtain ⟨-, x, y, square⟩ := circle?_eq_some_iff.1 through
  have twice : 2 * doubleArea a b c ≠ 0 := mul_ne_zero two_ne_zero solid
  -- the centre is where two bisectors meet
  have centreX := (eq_div_iff twice).1 x
  have centreY := (eq_div_iff twice).1 y
  have bisectB : 2 * o.x * (b.x - a.x) + 2 * o.y * (b.y - a.y)
      = b.x * b.x + b.y * b.y - (a.x * a.x + a.y * a.y) := by
    refine mul_right_cancel₀ solid ?_
    simp only [doubleArea] at *
    linear_combination (b.x - a.x) * centreX + (b.y - a.y) * centreY
  have bisectC : 2 * o.x * (c.x - a.x) + 2 * o.y * (c.y - a.y)
      = c.x * c.x + c.y * c.y - (a.x * a.x + a.y * a.y) := by
    refine mul_right_cancel₀ solid ?_
    simp only [doubleArea] at *
    linear_combination (c.x - a.x) * centreX + (c.y - a.y) * centreY
  simp only [Circle.power, Scalar.sq] at square ⊢
  refine ⟨?_, ?_, ?_⟩
  · rw [square]
    ring
  · rw [square]
    linear_combination -bisectB
  · rw [square]
    linear_combination -bisectC

/-- The square of the radius, from the squares of the sides. -/
theorem square_mul (through : circle? a b c = some o) :
    o.square * (2 * doubleArea a b c) ^ 2
      = (Scalar.sq (a.x - b.x) + Scalar.sq (a.y - b.y))
        * (Scalar.sq (b.x - c.x) + Scalar.sq (b.y - c.y))
        * (Scalar.sq (c.x - a.x) + Scalar.sq (c.y - a.y)) := by
  have twice : 2 * doubleArea a b c ≠ 0 := mul_ne_zero two_ne_zero (doubleArea_ne_zero through)
  obtain ⟨-, x, y, square⟩ := circle?_eq_some_iff.1 through
  have centreX := (eq_div_iff twice).1 x
  have centreY := (eq_div_iff twice).1 y
  have legs : o.square * (2 * doubleArea a b c) ^ 2
      = (a.x * (2 * doubleArea a b c) - o.x * (2 * doubleArea a b c)) ^ 2
        + (a.y * (2 * doubleArea a b c) - o.y * (2 * doubleArea a b c)) ^ 2 := by
    rw [square]
    simp only [Scalar.sq]
    ring
  rw [legs, centreX, centreY]
  simp only [doubleArea, Scalar.sq]
  ring

theorem square_pos (through : circle? a b c = some o) : 0 < o.square := by
  obtain ⟨-, -, -, square⟩ := circle?_eq_some_iff.1 through
  obtain ⟨-, second, -⟩ := power_corners through
  simp only [Circle.power, Scalar.sq] at square second
  have nonneg : 0 ≤ o.square := by
    rw [square]
    exact add_nonneg (mul_self_nonneg _) (mul_self_nonneg _)
  refine lt_of_le_of_ne nonneg fun zero => doubleArea_ne_zero through ?_
  rw [← zero] at square second
  rw [sub_zero] at second
  -- a circle of radius zero has the points in its centre
  have centre : ∀ {x y u v : ℝ}, (x - u) * (x - u) + (y - v) * (y - v) = 0 → x = u ∧ y = v := by
    intro x y u v sum
    constructor <;> nlinarith [mul_self_nonneg (x - u), mul_self_nonneg (y - v)]
  obtain ⟨ax, ay⟩ := centre square.symm
  obtain ⟨bx, bY⟩ := centre second
  simp only [doubleArea, ax, ay, ← bx, ← bY]
  ring

theorem power_pos_of_not_holds (through : circle? a b c = some o) {p : Point ℝ}
    (out : ¬o.holds p = true) : 0 < o.power p := by
  rw [Circle.holds_iff, not_lt] at out
  have positive := square_pos through
  refine lt_of_lt_of_le ?_ out
  norm_num
  exact positive

end Triangulation

end RoadNoise
