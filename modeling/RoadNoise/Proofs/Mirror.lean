/-
# RoadNoise.Proofs.Mirror -- images in a wall and ways that meet it

The image of a place in a line lies on its other side, as far from every place of the
line, and images keep relative positions.  A segment that crosses a line strictly between
its ends has them on different sides.  Together: a way from a target towards an image that
turns at the line towards the place itself has both ends on one side and its length.
-/
import RoadNoise.Proofs.Distance

set_option autoImplicit false

namespace RoadNoise

namespace Point

/-! ## Sides of a line -/

theorem sideOf_eq (p a b : Point ℝ) :
    p.sideOf a b = (b.x - a.x) * (p.y - a.y) - (b.y - a.y) * (p.x - a.x) := rfl

theorem sideOf_between (p q a b : Point ℝ) (t : ℝ) :
    (between p q t).sideOf a b = (1 - t) * p.sideOf a b + t * q.sideOf a b := by
  simp only [sideOf_eq, between]
  ring

/-- Places at the same planar position, whatever their elevations. -/
def Above (p q : Point ℝ) : Prop := p.x = q.x ∧ p.y = q.y

namespace Above

variable {p q r : Point ℝ}

theorem refl (p : Point ℝ) : p.Above p := ⟨rfl, rfl⟩

theorem symm (above : p.Above q) : q.Above p := ⟨above.1.symm, above.2.symm⟩

theorem trans (first : p.Above q) (second : q.Above r) : p.Above r :=
  ⟨first.1.trans second.1, first.2.trans second.2⟩

theorem sideOf_eq (above : p.Above q) (a b : Point ℝ) : p.sideOf a b = q.sideOf a b := by
  rw [Point.sideOf_eq, Point.sideOf_eq, above.1, above.2]

theorem planarDistance_eq {p' q' : Point ℝ} (first : p.Above p') (second : q.Above q') :
    p.planarDistance q = p'.planarDistance q' := by
  rw [Point.planarDistance_eq, Point.planarDistance_eq, first.1, first.2, second.1, second.2]

theorem between {p' q' : Point ℝ} (first : p.Above p') (second : q.Above q') (t : ℝ) :
    (Point.between p q t).Above (Point.between p' q' t) := by
  simp only [Above, Point.between, first.1, first.2, second.1, second.2, and_self]

end Above

/-! ## Distances -/

theorem planarDistance_comm (p q : Point ℝ) : p.planarDistance q = q.planarDistance p := by
  rw [planarDistance_eq, planarDistance_eq]
  congr 1
  ring

theorem planarDistance_between_left (p q : Point ℝ) {t : ℝ} (forwards : 0 ≤ t) :
    p.planarDistance (between p q t) = t * p.planarDistance q := by
  have scaled : ((between p q t).x - p.x) ^ 2 + ((between p q t).y - p.y) ^ 2
      = t ^ 2 * ((q.x - p.x) ^ 2 + (q.y - p.y) ^ 2) := by
    simp only [between]
    ring
  rw [planarDistance_eq, planarDistance_eq, scaled, Real.sqrt_mul (sq_nonneg t),
    Real.sqrt_sq forwards]

theorem planarDistance_between_right (p q : Point ℝ) {t : ℝ} (stop : t ≤ 1) :
    (between p q t).planarDistance q = (1 - t) * p.planarDistance q := by
  have scaled : (q.x - (between p q t).x) ^ 2 + (q.y - (between p q t).y) ^ 2
      = (1 - t) ^ 2 * ((q.x - p.x) ^ 2 + (q.y - p.y) ^ 2) := by
    simp only [between]
    ring
  rw [planarDistance_eq, planarDistance_eq, scaled, Real.sqrt_mul (sq_nonneg _),
    Real.sqrt_sq (by linarith)]

/-- A place on the way divides it. -/
theorem planarDistance_add_of_above {p q m : Point ℝ} {t : ℝ} (start : 0 ≤ t) (stop : t ≤ 1)
    (above : m.Above (between p q t)) :
    p.planarDistance m + m.planarDistance q = p.planarDistance q := by
  rw [(Above.refl p).planarDistance_eq above, above.planarDistance_eq (Above.refl q),
    planarDistance_between_left p q start, planarDistance_between_right p q stop]
  ring

/-! ## Images -/

/-- The relative position of the place of the line through `a` and `b` nearest to `p`. -/
noncomputable def foot (p a b : Point ℝ) : ℝ := (p - a).dot (b - a) / (b - a).dot (b - a)

variable {p q a b c : Point ℝ}

theorem image?_eq_some_iff : p.image? a b = some q ↔
    Scalar.eps * Scalar.eps ≤ (b - a).dot (b - a) ∧
      q = ⟨2 * (a.x + p.foot a b * (b.x - a.x)) - p.x,
        2 * (a.y + p.foot a b * (b.y - a.y)) - p.y, p.z⟩ := by
  unfold image?
  dsimp only
  split_ifs with short
  · exact iff_of_false (by simp) fun image => absurd short (not_lt.2 image.1)
  · simp [not_lt.1 short, foot, eq_comm]

theorem square_pos_of_image? (image : p.image? a b = some q) :
    0 < (b.x - a.x) * (b.x - a.x) + (b.y - a.y) * (b.y - a.y) :=
  (mul_pos Scalar.eps_pos Scalar.eps_pos).trans_le (image?_eq_some_iff.1 image).1

theorem foot_mul (solid : 0 < (b.x - a.x) * (b.x - a.x) + (b.y - a.y) * (b.y - a.y)) :
    p.foot a b * ((b.x - a.x) * (b.x - a.x) + (b.y - a.y) * (b.y - a.y))
      = (p.x - a.x) * (b.x - a.x) + (p.y - a.y) * (b.y - a.y) :=
  div_mul_cancel₀ _ solid.ne'

/-- An image lies on the other side of the line. -/
theorem sideOf_image? (image : p.image? a b = some q) : q.sideOf a b = -p.sideOf a b := by
  obtain ⟨-, rfl⟩ := image?_eq_some_iff.1 image
  simp only [sideOf_eq]
  ring

/-- Places of the line are those at some relative position. -/
theorem above_of_sideOf_eq_zero
    (solid : 0 < (b.x - a.x) * (b.x - a.x) + (b.y - a.y) * (b.y - a.y))
    (onLine : c.sideOf a b = 0) : c.Above (between a b (c.foot a b)) := by
  have known := foot_mul (p := c) solid
  rw [sideOf_eq] at onLine
  constructor
  · refine mul_right_cancel₀ solid.ne' ?_
    simp only [between]
    linear_combination (b.x - a.x) * known.symm - (b.y - a.y) * onLine
  · refine mul_right_cancel₀ solid.ne' ?_
    simp only [between]
    linear_combination (b.y - a.y) * known.symm + (b.x - a.x) * onLine

/-- A place and its image are equally far from the places of the line. -/
theorem planarDistance_image? (image : p.image? a b = some q) (onLine : c.sideOf a b = 0) :
    c.planarDistance q = c.planarDistance p := by
  have solid := square_pos_of_image? image
  have known := foot_mul (p := p) solid
  obtain ⟨alongX, alongY⟩ := above_of_sideOf_eq_zero solid onLine
  obtain ⟨-, rfl⟩ := image?_eq_some_iff.1 image
  rw [planarDistance_eq, planarDistance_eq]
  congr 1
  simp only [between] at alongX alongY
  rw [alongX, alongY]
  linear_combination 4 * (p.foot a b - c.foot a b) * known

/-- Whether a place has an image, and where on the map, does not depend on its elevation. -/
theorem Above.exists_image? {p' q' : Point ℝ} (above : p.Above p')
    (image : p'.image? a b = some q') : ∃ r, p.image? a b = some r ∧ r.Above q' ∧ r.z = p.z := by
  obtain ⟨wide, rfl⟩ := image?_eq_some_iff.1 image
  have feet : p.foot a b = p'.foot a b := by
    simp only [foot, Displacement.dot, sub_dx, sub_dy, above.1, above.2]
  refine ⟨_, image?_eq_some_iff.2 ⟨wide, rfl⟩, ?_, rfl⟩
  rw [feet]
  simp only [Above, above.1, above.2, and_self]

/-- Images keep positions relative to a place of the line. -/
theorem exists_image?_between (image : p.image? a b = some q) (onLine : c.sideOf a b = 0)
    {m : Point ℝ} {u : ℝ} (above : m.Above (between c p u)) :
    ∃ r, m.image? a b = some r ∧ r.Above (between c q u) ∧ r.z = m.z := by
  have solid := square_pos_of_image? image
  have known := foot_mul (p := p) solid
  have own := foot_mul (p := m) solid
  obtain ⟨alongX, alongY⟩ := above_of_sideOf_eq_zero solid onLine
  obtain ⟨wide, rfl⟩ := image?_eq_some_iff.1 image
  refine ⟨_, image?_eq_some_iff.2 ⟨wide, rfl⟩, ?_, rfl⟩
  obtain ⟨placeX, placeY⟩ := above
  simp only [between] at alongX alongY placeX placeY
  have feet : m.foot a b = c.foot a b + (p.foot a b - c.foot a b) * u := by
    refine mul_right_cancel₀ solid.ne' ?_
    rw [own, placeX, placeY, alongX, alongY]
    linear_combination -u * known
  constructor
  · simp only [between]
    rw [feet, placeX, alongX]
    ring
  · simp only [between]
    rw [feet, placeY, alongY]
    ring

end Point

/-! ## Crossing a line -/

/-- Two segments that meet in one point are not parallel, and the positions are those of the
two lines, held to the ends. -/
theorem Crossing.eq_of_point {p q a b : Point ℝ} {t s : ℝ}
    (met : Crossing.of p q a b = .point t s) : (q - p).cross (b - a) ≠ 0 ∧
      t = Scalar.clamp 0 1 ((a - p).cross (b - a) / (q - p).cross (b - a)) ∧
      s = Scalar.clamp 0 1 ((a - p).cross (q - p) / (q - p).cross (b - a)) := by
  unfold Crossing.of at met
  dsimp only at met
  split at met
  · unfold ofParallel at met
    dsimp only at met
    split_ifs at met
  · rename_i transversal
    split_ifs at met
    obtain ⟨rfl, rfl⟩ := Crossing.point.inj met
    refine ⟨fun none => transversal ?_, rfl, rfl⟩
    rw [none, Scalar.abs_eq, abs_zero]
    exact mul_pos Scalar.eps_pos (zero_lt_one.trans_le (le_max_right _ _))

/-- The lines through `p` and `q` and through `a` and `b` meet at these positions. -/
theorem Crossing.above_iff_shares {p q a b : Point ℝ} (turn : (q - p).cross (b - a) ≠ 0) {t s : ℝ} :
    (Point.between p q t).Above (Point.between a b s) ↔
      t = (a - p).cross (b - a) / (q - p).cross (b - a) ∧
        s = (a - p).cross (q - p) / (q - p).cross (b - a) := by
  rw [eq_div_iff turn, eq_div_iff turn]
  simp only [Displacement.cross, sub_dx, sub_dy, Point.Above, Point.between] at turn ⊢
  constructor
  · rintro ⟨atX, atY⟩
    constructor
    · linear_combination (b.y - a.y) * atX - (b.x - a.x) * atY
    · linear_combination (q.y - p.y) * atX - (q.x - p.x) * atY
  · rintro ⟨first, second⟩
    constructor
    · refine mul_right_cancel₀ turn ?_
      linear_combination (q.x - p.x) * first - (b.x - a.x) * second
    · refine mul_right_cancel₀ turn ?_
      linear_combination (q.y - p.y) * first - (b.y - a.y) * second

/-- Between the ends of both segments the two positions are of one place. -/
theorem Crossing.above_of_point {p q a b : Point ℝ} {t s : ℝ}
    (met : Crossing.of p q a b = .point t s) (inside : 0 < t ∧ t < 1) (inside' : 0 < s ∧ s < 1) :
    (Point.between p q t).Above (Point.between a b s) := by
  obtain ⟨turn, first, second⟩ := eq_of_point met
  obtain ⟨start, stop⟩ := inside
  obtain ⟨start', stop'⟩ := inside'
  rw [first] at start stop
  rw [second] at start' stop'
  rw [Scalar.clamp_eq_self start stop] at first
  rw [Scalar.clamp_eq_self start' stop'] at second
  exact (above_iff_shares turn).2 ⟨first, second⟩

/-- A segment that crosses another one between its own ends has these on different sides
of the line of the other. -/
theorem Crossing.of_eq_point {p q a b : Point ℝ} {t s : ℝ}
    (met : Crossing.of p q a b = .point t s) (start : 0 < t) (stop : t < 1) :
    (Point.between p q t).sideOf a b = 0 ∧ p.sideOf a b ≠ 0 := by
  obtain ⟨turn, held, -⟩ := eq_of_point met
  rw [held] at start stop
  rw [Scalar.clamp_eq_self start stop] at held start
  have meets : t * (q - p).cross (b - a) = (a - p).cross (b - a) := by
    rw [held, div_mul_cancel₀ _ turn]
  rw [← held] at start
  simp only [Displacement.cross, sub_dx, sub_dy] at meets turn
  simp only [Point.sideOf_eq, Point.between]
  constructor
  · linear_combination -meets
  · intro onLine
    have scaled : t * ((q.x - p.x) * (b.y - a.y) - (q.y - p.y) * (b.x - a.x)) = 0 := by
      linear_combination meets + onLine
    exact (mul_ne_zero start.ne' turn) scaled

end RoadNoise
