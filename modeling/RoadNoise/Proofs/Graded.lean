/-
# RoadNoise.Proofs.Graded -- ways that rise evenly

Grading a way moves none of its points on the map and neither of its ends at all.  Every
leg then rises with one slope (`leg_of_mem_graded`), so the length in space is that of
one straight line over the length of the way on the map (`length_graded_eq`).
-/
import RoadNoise.Proofs.Mirror
import RoadNoise.Proofs.Sequence

set_option autoImplicit false

namespace RoadNoise.Polyline

/-! ## Lengths on the map -/

@[simp] theorem planarLength_singleton (p : Point ℝ) : planarLength [p] = 0 := by
  simp [planarLength, Sequence.adjacent]

theorem planarLength_cons_cons (p q : Point ℝ) (rest : List (Point ℝ)) :
    planarLength (p :: q :: rest) = p.planarDistance q + planarLength (q :: rest) := by
  simp [planarLength, Sequence.adjacent]

theorem planarLength_concat (front : List (Point ℝ)) (p q : Point ℝ) :
    planarLength (front ++ [p, q]) = planarLength (front ++ [p]) + p.planarDistance q := by
  simp [planarLength, Sequence.adjacent_concat]

theorem planarLength_congr {way way' : List (Point ℝ)} (above : List.Forall₂ Point.Above way way') :
    planarLength way = planarLength way' := by
  induction above with
  | nil => rfl
  | cons first rest ih =>
      cases rest with
      | nil => simp
      | cons second rest =>
          rw [planarLength_cons_cons, planarLength_cons_cons, ih, first.planarDistance_eq second]

/-- On the map no way is shorter than the straight line between its ends. -/
theorem planarDistance_le_planarLength (source receiver : Point ℝ) (points : List (Point ℝ)) :
    source.planarDistance receiver ≤ planarLength (source :: points ++ [receiver]) := by
  induction points generalizing source with
  | nil => simp [planarLength_cons_cons]
  | cons p points ih =>
      rw [List.cons_append, List.cons_append, planarLength_cons_cons]
      exact (source.planarDistance_triangle p receiver).trans
        (add_le_add_right (ih p) (source.planarDistance p))

/-! ## Points -/

section

variable {α : Type} [Scalar α]

theorem length_gradeAfter (rise : α → α) (run : α) (last : Point α) (way : List (Point α)) :
    (gradeAfter rise run last way).length = way.length := by
  induction way generalizing run last with
  | nil => rfl
  | cons p way ih => rw [gradeAfter, List.length_cons, List.length_cons, ih]

theorem length_graded (way : List (Point α)) : (graded way).length = way.length := by
  unfold graded
  split
  · rfl
  · dsimp only
    split_ifs
    · rfl
    · rw [List.length_cons, List.length_cons, length_gradeAfter]

end

theorem above_gradeAfter (rise : ℝ → ℝ) (run : ℝ) (last : Point ℝ) (way : List (Point ℝ)) :
    List.Forall₂ Point.Above (gradeAfter rise run last way) way := by
  induction way generalizing run last with
  | nil => exact .nil
  | cons p way ih => exact .cons ⟨rfl, rfl⟩ (ih _ _)

/-- Grading moves no point on the map. -/
theorem above_graded (way : List (Point ℝ)) : List.Forall₂ Point.Above (graded way) way := by
  cases way with
  | nil => exact .nil
  | cons first rest =>
      simp only [graded]
      split
      · exact List.forall₂_same.2 fun p _ => .refl p
      · exact .cons (.refl first) (above_gradeAfter _ _ _ _)

/-! ## Ends -/

theorem getLast?_gradeAfter (rise : ℝ → ℝ) (run : ℝ) (start : Point ℝ) (way : List (Point ℝ)) :
    (gradeAfter rise run start way).getLast?
      = way.getLast?.map fun p => p.raisedTo (rise (run + planarLength (start :: way))) := by
  induction way generalizing run start with
  | nil => rfl
  | cons p way ih =>
      cases way with
      | nil => simp [gradeAfter, planarLength, Sequence.adjacent]
      | cons q way =>
          rw [planarLength_cons_cons, List.getLast?_cons_cons, ← add_assoc, ← ih]
          simp [gradeAfter, List.getLast?_cons_cons]

theorem head?_graded (way : List (Point ℝ)) : (graded way).head? = way.head? := by
  cases way with
  | nil => rfl
  | cons first rest =>
      simp only [graded]
      split <;> rfl

/-- The last point rises to where it was. -/
theorem getLast?_graded (way : List (Point ℝ)) : (graded way).getLast? = way.getLast? := by
  cases way with
  | nil => rfl
  | cons first rest =>
      simp only [graded]
      split
      · rfl
      · rename_i long
        rw [not_le] at long
        cases rest with
        | nil => simp [planarLength, Sequence.adjacent] at long
        | cons second rest =>
            obtain ⟨last, isLast⟩ : ∃ last, (second :: rest).getLast? = some last :=
              ⟨_, List.getLast?_eq_some_getLast (List.cons_ne_nil second rest)⟩
            have lastD : (second :: rest).getLastD first = last := by
              rw [List.getLastD_eq_getLast?, isLast]
              rfl
            have top := getLast?_gradeAfter (fun run => first.z
              + run / planarLength (first :: second :: rest) * (last.z - first.z)) 0 first
              (second :: rest)
            rw [isLast, zero_add, div_self long.ne', one_mul, add_sub_cancel] at top
            rw [lastD, List.getLast?_cons_cons, isLast]
            exact top

/-- A graded way is the way between its ends with points of its own. -/
theorem graded_eq (source receiver : Point ℝ) (points : List (Point ℝ)) :
    graded (source :: points ++ [receiver])
      = source :: inner (graded (source :: points ++ [receiver])) ++ [receiver] := by
  have first := head?_graded (source :: points ++ [receiver])
  have last := getLast?_graded (source :: points ++ [receiver])
  have long := length_graded (source :: points ++ [receiver])
  revert first last long
  cases graded (source :: points ++ [receiver]) with
  | nil => simp
  | cons start rest =>
      intro first last long
      obtain rfl : start = source := by simpa using first
      obtain ⟨front, rfl⟩ : ∃ front, rest = front ++ [receiver] := by
        cases rest with
        | nil => simp at long
        | cons second rest =>
            rw [List.getLast?_cons_cons, List.getLast?_concat] at last
            exact List.getLast?_eq_some_iff.1 last
      simp [inner]

/-! ## Legs -/

/-- Every leg laid by an even rise has its slope. -/
theorem leg_of_mem_gradeAfter {rise : ℝ → ℝ} {slope : ℝ} (base : ℝ)
    (even : ∀ run, rise run = base + slope * run) {run : ℝ} {start last : Point ℝ}
    {way : List (Point ℝ)} (above : start.Above last) (level : start.z = rise run) {a b : Point ℝ}
    (leg : (a, b) ∈ Sequence.adjacent (start :: gradeAfter rise run last way)) :
    b.z - a.z = slope * a.planarDistance b := by
  induction way generalizing run start last with
  | nil => simp [gradeAfter, Sequence.adjacent] at leg
  | cons p way ih =>
      rw [gradeAfter, Sequence.adjacent_cons_cons, List.mem_cons] at leg
      rcases leg with first | later
      · obtain ⟨rfl, rfl⟩ := Prod.mk.inj first
        have same : a.planarDistance (p.raisedTo (rise (run + last.planarDistance p)))
            = last.planarDistance p := above.planarDistance_eq ⟨rfl, rfl⟩
        rw [same, level, Point.raisedTo, even, even]
        ring
      · refine ih ?_ ?_ later
        · exact ⟨rfl, rfl⟩
        · rfl

/-- Every leg of a graded way rises with the slope of the whole. -/
theorem leg_of_mem_graded {source receiver : Point ℝ} {points : List (Point ℝ)}
    (long : 0 < planarLength (source :: points ++ [receiver])) {a b : Point ℝ}
    (leg : (a, b) ∈ Sequence.adjacent (graded (source :: points ++ [receiver]))) :
    b.z - a.z = (receiver.z - source.z) / planarLength (source :: points ++ [receiver])
      * a.planarDistance b := by
  have last : (points ++ [receiver]).getLastD source = receiver := by
    rw [List.getLastD_eq_getLast?, List.getLast?_concat, Option.getD_some]
  rw [List.cons_append] at long leg ⊢
  simp only [graded, last, if_neg long.not_ge] at leg
  refine leg_of_mem_gradeAfter source.z (fun run => ?_) (.refl source) ?_ leg
  · ring
  · simp

/-- A point of a graded way has risen by its share of the way to it. -/
theorem elevation_of_graded {source receiver : Point ℝ} {points front back : List (Point ℝ)}
    {v : Point ℝ} (long : 0 < planarLength (source :: points ++ [receiver]))
    (split : graded (source :: points ++ [receiver]) = front ++ v :: back) :
    v.z = source.z + planarLength (front ++ [v]) / planarLength (source :: points ++ [receiver])
      * (receiver.z - source.z) := by
  induction front using List.reverseRecOn generalizing v back with
  | nil =>
      have first := head?_graded (source :: points ++ [receiver])
      rw [split] at first
      obtain rfl : v = source := by simpa using first
      simp
  | append_singleton front u ih =>
      have earlier : graded (source :: points ++ [receiver]) = front ++ u :: v :: back := by
        rw [split]
        simp
      have before := ih earlier
      have leg := leg_of_mem_graded long (a := u) (b := v)
        (Sequence.mem_adjacent_iff.2 ⟨front, back, earlier⟩)
      rw [List.append_assoc, List.singleton_append, planarLength_concat]
      linear_combination leg + before

/-- Legs of one slope make a way as long as a straight line of that slope. -/
theorem length_of_slope {slope : ℝ} {way : List (Point ℝ)}
    (even : ∀ a b, (a, b) ∈ Sequence.adjacent way → b.z - a.z = slope * a.planarDistance b) :
    length way = planarLength way * √(1 + slope ^ 2) := by
  induction way with
  | nil => simp [length, planarLength, Sequence.adjacent]
  | cons p way ih =>
      cases way with
      | nil => simp
      | cons q way =>
          have rises := even p q (by simp [Sequence.adjacent_cons_cons])
          have leg : p.distance q = p.planarDistance q * √(1 + slope ^ 2) := by
            have square : (q.x - p.x) ^ 2 + (q.y - p.y) ^ 2 = p.planarDistance q ^ 2 :=
              (Real.sq_sqrt (by positivity)).symm
            rw [Point.distance_eq, square, rises, ← Real.sqrt_sq (p.planarDistance_nonneg q),
              ← Real.sqrt_mul (sq_nonneg _), Real.sqrt_sq (p.planarDistance_nonneg q)]
            congr 1
            ring
          rw [length_cons_cons, planarLength_cons_cons, leg, add_mul, ih fun a b later =>
            even a b (by rw [Sequence.adjacent_cons_cons]; exact List.mem_cons_of_mem _ later)]

/-- A graded way is as long as the straight line over its length on the map. -/
theorem length_graded_eq {source receiver : Point ℝ} {points : List (Point ℝ)}
    (long : 0 < planarLength (source :: points ++ [receiver])) :
    length (graded (source :: points ++ [receiver]))
      = √(planarLength (source :: points ++ [receiver]) ^ 2 + (receiver.z - source.z) ^ 2) := by
  rw [length_of_slope fun a b => leg_of_mem_graded long, planarLength_congr (above_graded _)]
  nth_rewrite 1 [← Real.sqrt_sq long.le]
  rw [← Real.sqrt_mul (sq_nonneg _)]
  congr 1
  field_simp

end RoadNoise.Polyline
