/-
# RoadNoise.Proofs.Distance -- distances between places and along ways

Distances are the Euclidean ones, in the plane and in space, so no way through
several points is shorter than the straight line between its ends
(`Polyline.distance_le_length`).
-/
import RoadNoise.Proofs.Exact
import RoadNoise.Plane.Crossing
import RoadNoise.Ray.Polyline

set_option autoImplicit false

namespace RoadNoise

/-! ## Displacements -/

@[simp] theorem sub_dx (p q : Point ℝ) : (p - q).dx = p.x - q.x := rfl

@[simp] theorem sub_dy (p q : Point ℝ) : (p - q).dy = p.y - q.y := rfl

@[simp] theorem sub_dz (p q : Point ℝ) : (p - q).dz = p.z - q.z := rfl

namespace Point

@[ext] theorem ext {p q : Point ℝ} (x : p.x = q.x) (y : p.y = q.y) (z : p.z = q.z) : p = q := by
  cases p
  cases q
  simp_all

@[simp] theorem between_zero (a b : Point ℝ) : between a b 0 = a := by
  ext <;> simp [between]

@[simp] theorem between_one (a b : Point ℝ) : between a b 1 = b := by
  ext <;> simp [between]

/-! ## Distances in the plane -/

theorem planarDistance_eq (p q : Point ℝ) :
    p.planarDistance q = √((q.x - p.x) ^ 2 + (q.y - p.y) ^ 2) := rfl

theorem planarDistance_nonneg (p q : Point ℝ) : 0 ≤ p.planarDistance q := Real.sqrt_nonneg _

theorem abs_x_le_planarDistance (p q : Point ℝ) : |q.x - p.x| ≤ p.planarDistance q := by
  rw [planarDistance_eq]
  exact Real.abs_le_sqrt (le_add_of_nonneg_right (sq_nonneg _))

theorem abs_y_le_planarDistance (p q : Point ℝ) : |q.y - p.y| ≤ p.planarDistance q := by
  rw [planarDistance_eq]
  exact Real.abs_le_sqrt (le_add_of_nonneg_left (sq_nonneg _))

/-- The nearest place of a segment lies between its ends. -/
theorem exists_distanceToSegment_eq (p a b : Point ℝ) :
    ∃ t, 0 ≤ t ∧ t ≤ 1 ∧ p.distanceToSegment a b = p.planarDistance (between a b t) := by
  unfold distanceToSegment
  dsimp only
  split_ifs
  · exact ⟨0, le_rfl, zero_le_one, by rw [between_zero]⟩
  · exact ⟨_, Scalar.le_clamp _ zero_le_one, Scalar.clamp_le _ zero_le_one, rfl⟩

/-! ## Distances in space -/

/-- The place as a vector of coordinates. -/
noncomputable def toSpace (p : Point ℝ) : EuclideanSpace ℝ (Fin 3) := !₂[p.x, p.y, p.z]

theorem distance_eq (p q : Point ℝ) :
    p.distance q = √((q.x - p.x) ^ 2 + (q.y - p.y) ^ 2 + (q.z - p.z) ^ 2) := by
  have square : 0 ≤ (q.x - p.x) ^ 2 + (q.y - p.y) ^ 2 := by positivity
  simp only [distance, Displacement.length, Displacement.planarLength, Scalar.hypot_eq, sub_dx,
    sub_dy, sub_dz]
  rw [Real.sq_sqrt square]

theorem distance_eq_dist (p q : Point ℝ) : p.distance q = dist p.toSpace q.toSpace := by
  rw [distance_eq, dist_comm, EuclideanSpace.dist_eq]
  simp [toSpace, Fin.sum_univ_three, Real.dist_eq, sq_abs]

theorem distance_nonneg (p q : Point ℝ) : 0 ≤ p.distance q := Real.sqrt_nonneg _

theorem distance_triangle (p q r : Point ℝ) : p.distance r ≤ p.distance q + q.distance r := by
  simpa only [distance_eq_dist] using dist_triangle _ _ _

theorem planarDistance_triangle (p q r : Point ℝ) :
    p.planarDistance r ≤ p.planarDistance q + q.planarDistance r := by
  have level : ∀ a b : Point ℝ, a.planarDistance b = (a.raisedTo 0).distance (b.raisedTo 0) := by
    intro a b
    simp [planarDistance_eq, distance_eq, raisedTo]
  simpa only [level] using distance_triangle _ _ _

end Point

/-! ## Ways -/

namespace Polyline

@[simp] theorem length_singleton (p : Point ℝ) : length [p] = 0 := by
  simp [length, Sequence.adjacent]

@[simp] theorem length_cons_cons (p q : Point ℝ) (rest : List (Point ℝ)) :
    length (p :: q :: rest) = p.distance q + length (q :: rest) := by
  simp [length, Sequence.adjacent]

theorem length_nonneg (way : List (Point ℝ)) : 0 ≤ length way := by
  rw [length, Scalar.sum_eq]
  refine List.sum_nonneg fun x leg => ?_
  obtain ⟨⟨p, q⟩, -, rfl⟩ := List.mem_map.1 leg
  exact p.distance_nonneg q

/-- No way is shorter than the straight line between its ends. -/
theorem distance_le_length (first : Point ℝ) (rest : List (Point ℝ)) :
    first.distance (rest.getLastD first) ≤ length (first :: rest) := by
  induction rest generalizing first with
  | nil => simp [Point.distance_eq]
  | cons next rest ih =>
      rw [length_cons_cons, List.getLastD_cons]
      exact (first.distance_triangle next _).trans (by linarith [ih next])

end Polyline

end RoadNoise
