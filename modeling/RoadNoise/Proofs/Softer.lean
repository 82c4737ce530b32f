/-
# RoadNoise.Proofs.Softer -- softer ground never takes less

The loss to the ground depends on the factors of the ground only by three means, over the
regions near the source, between, and near the receiver.  Which of the spans lie in a region
and how much of them is a matter of lengths and heights, so on softer ground the regions are
the same and every mean is at least as great (`Footing.Softer.factors`), also where a region
has no ground of its own and takes the mean of all.

Every term grows with its mean: those of the outer regions because what the factor is
multiplied by is not negative, and that between because its share of the path is not
(`middleTerm_mono`), the sign of the term notwithstanding.
-/
import RoadNoise.Proofs.Losses

set_option autoImplicit false

namespace RoadNoise

/-- The same part of a line on ground that absorbs at least as much. -/
structure Span.Softer (a b : Span ℝ) : Prop where
  length_nonneg : 0 ≤ a.length
  length : b.length = a.length
  factor : a.factor ≤ b.factor

/-- The same footing on ground that absorbs at least as much. -/
structure Footing.Softer (f f' : Footing ℝ) : Prop where
  sourceHeight : f'.sourceHeight = f.sourceHeight
  receiverHeight : f'.receiverHeight = f.receiverHeight
  spans : List.Forall₂ Span.Softer f.spans f'.spans
  sourceFactor : Option.Rel (· ≤ ·) f.sourceFactor f'.sourceFactor

/-! ## Mean factors -/

section Means

variable {spans softer : List (Span ℝ)}

theorem lengths_of_softer (grow : List.Forall₂ Span.Softer spans softer) :
    softer.map Span.length = spans.map Span.length ∧ ∀ x ∈ spans.map Span.length, 0 ≤ x := by
  induction grow with
  | nil => simp
  | cons span _ ih =>
      obtain ⟨same, nonneg⟩ := ih
      refine ⟨by rw [List.map_cons, List.map_cons, span.length, same], ?_⟩
      exact List.forall_mem_cons.2 ⟨span.length_nonneg, nonneg⟩

/-- Softer spans cover as much, with at least as much weight. -/
theorem coverage_mono (grow : List.Forall₂ Span.Softer spans softer) (lo hi start : ℝ)
    {weighted weighted' : ℝ} (more : weighted ≤ weighted') (covered : ℝ) :
    (coverage lo hi start weighted covered spans).1
        ≤ (coverage lo hi start weighted' covered softer).1 ∧
      (coverage lo hi start weighted covered spans).2
        = (coverage lo hi start weighted' covered softer).2 := by
  induction grow generalizing start weighted weighted' covered with
  | nil => exact ⟨more, rfl⟩
  | cons span _ ih =>
      rw [coverage, coverage, span.length]
      split_ifs with meets
      · exact ih _ (add_le_add more (mul_le_mul_of_nonneg_left span.factor meets.le)) _
      · exact ih _ more _

theorem meanFactor?_mono (grow : List.Forall₂ Span.Softer spans softer) (lo hi : ℝ) :
    Option.Rel (· ≤ ·) (meanFactor? spans lo hi) (meanFactor? softer lo hi) := by
  obtain ⟨weighted, covered⟩ := coverage_mono grow lo hi 0 le_rfl 0
  unfold meanFactor?
  split_ifs with empty
  · exact .none
  · dsimp only
    rw [← covered]
    split_ifs with meets
    · exact .some (div_le_div_of_nonneg_right weighted meets.le)
    · exact .none

theorem rel_or {a a' b b' : Option ℝ} (first : Option.Rel (· ≤ ·) a a')
    (second : Option.Rel (· ≤ ·) b b') : Option.Rel (· ≤ ·) (a.or b) (a'.or b') := by
  cases first with
  | none => exact second
  | some grow => exact .some grow

theorem getD_mono {a a' : Option ℝ} (grow : Option.Rel (· ≤ ·) a a') {d d' : ℝ}
    (least : d ≤ d') : a.getD d ≤ a'.getD d' := by
  cases grow with
  | none => exact least
  | some grow => exact grow

end Means

namespace Footing

variable {f f' : Footing ℝ}

theorem Softer.length (softer : f.Softer f') : f'.length = f.length := by
  rw [Footing.length, Footing.length, (lengths_of_softer softer.spans).1]

theorem Softer.length_nonneg (softer : f.Softer f') : 0 ≤ f.length := by
  rw [Footing.length, Scalar.sum_eq]
  exact List.sum_nonneg (lengths_of_softer softer.spans).2

theorem Softer.factors (softer : f.Softer f') :
    f.factors.1 ≤ f'.factors.1 ∧ f.factors.2.1 ≤ f'.factors.2.1 ∧
      f.factors.2.2 ≤ f'.factors.2.2 := by
  have mean (lo hi : ℝ) :
      ((meanFactor? f.spans lo hi).or (meanFactor? f.spans 0 f.length)).getD 0
        ≤ ((meanFactor? f'.spans lo hi).or (meanFactor? f'.spans 0 f.length)).getD 0 :=
    getD_mono (rel_or (meanFactor?_mono softer.spans lo hi)
      (meanFactor?_mono softer.spans 0 f.length)) le_rfl
  simp only [Footing.factors, softer.length, softer.sourceHeight, softer.receiverHeight]
  exact ⟨getD_mono softer.sourceFactor (mean _ _), mean _ _, mean _ _⟩

theorem Softer.favourableHeights (softer : f.Softer f') :
    f'.favourableHeights = f.favourableHeights := by
  simp only [Footing.favourableHeights, softer.length, softer.sourceHeight,
    softer.receiverHeight]

end Footing

/-! ## Terms -/

theorem one_sub_exp_nonneg {x : ℝ} (least : x ≤ 0) : 0 ≤ 1 - Real.exp x :=
  sub_nonneg.2 (Real.exp_le_one_iff.2 least)

/-- The term of an outer region grows with the factor of its ground. -/
theorem outerTerm_mono (octave : Fin 8) {g g' : ℝ} (softer : g ≤ g') (h : ℝ) {dp : ℝ}
    (long : 0 ≤ dp) : outerTerm octave g h dp ≤ outerTerm octave g' h dp := by
  have far : 0 ≤ 1 - Real.exp (-dp / 50) := one_sub_exp_nonneg (by linarith)
  have bent : 0 ≤ 1 - Real.exp (-2.8e-6 * dp * dp) :=
    one_sub_exp_nonneg (by nlinarith [mul_nonneg long long])
  have grows {a : ℝ} (weight : 0 ≤ a) : -1.5 + g * a ≤ -1.5 + g' * a := by
    linarith [mul_le_mul_of_nonneg_right softer weight]
  unfold outerTerm
  simp only [Scalar.exp_eq]
  split
  · exact le_rfl
  · exact grows (by positivity)
  · exact grows (by positivity)
  · exact grows (by positivity)
  · exact grows (by positivity)
  · linarith

/-- The term between grows with the factor of its ground. -/
theorem middleTerm_mono (octave : Fin 8) {g g' : ℝ} (softer : g ≤ g') (hs hr : ℝ) {dp : ℝ}
    (long : 0 ≤ dp) : middleTerm octave g hs hr dp ≤ middleTerm octave g' hs hr dp := by
  unfold middleTerm
  dsimp only
  set q : ℝ := if dp ≤ 30 * (hs + hr) then 0 else 1 - 30 * (hs + hr) / dp with share
  have least : 0 ≤ q := by
    rw [share]
    split_ifs with reach
    · exact le_rfl
    · exact sub_nonneg.2 (div_le_one_of_le₀ (not_le.1 reach).le long)
  split
  · exact le_rfl
  · nlinarith

theorem groundTerm_mono (octave : Fin 8) {factors factors' : ℝ × ℝ × ℝ}
    (softer : factors.1 ≤ factors'.1 ∧ factors.2.1 ≤ factors'.2.1 ∧ factors.2.2 ≤ factors'.2.2)
    (hs hr : ℝ) {dp : ℝ} (long : 0 ≤ dp) :
    groundTerm octave factors hs hr dp ≤ groundTerm octave factors' hs hr dp := by
  obtain ⟨near, middle, far⟩ := softer
  refine max_le_max_right _ (add_le_add (add_le_add ?_ ?_) ?_)
  · exact outerTerm_mono octave near hs long
  · exact outerTerm_mono octave far hr long
  · exact middleTerm_mono octave middle hs hr long

/-! ## Losses -/

namespace Footing

variable {f f' : Footing ℝ}

theorem Softer.lossAtHeights (softer : f.Softer f') (bands : BandSet) (hs hr : ℝ) :
    List.Forall₂ (· ≤ ·) (f.lossAtHeights bands hs hr) (f'.lossAtHeights bands hs hr) := by
  rw [Footing.lossAtHeights, Footing.lossAtHeights, softer.length, List.forall₂_map_left_iff,
    List.forall₂_map_right_iff, List.forall₂_same]
  exact fun octave _ => groundTerm_mono octave softer.factors hs hr softer.length_nonneg

/-- Softer ground never takes less in any band, wherever the rays bend. -/
theorem loss_softer (softer : f.Softer f') (bands : BandSet) :
    ((f.loss bands).length = bands.size ∧
      List.Forall₂ (· ≤ ·) (f.loss bands) (f'.loss bands)) ∧
    (f.favourableLoss bands).length = bands.size ∧
      List.Forall₂ (· ≤ ·) (f.favourableLoss bands) (f'.favourableLoss bands) := by
  refine ⟨⟨f.length_lossAtHeights bands _ _, ?_⟩, f.length_lossAtHeights bands _ _, ?_⟩
  · rw [Footing.loss, Footing.loss, softer.sourceHeight, softer.receiverHeight]
    exact softer.lossAtHeights bands _ _
  · rw [Footing.favourableLoss, Footing.favourableLoss, softer.favourableHeights]
    exact softer.lossAtHeights bands _ _

/-- Asphalt, then a lawn, over 120 metres. -/
noncomputable def roadside : Footing ℝ := ⟨0.05, 4.0, [⟨20.0, 0⟩, ⟨100.0, 0.5⟩], some 0⟩

/-- The same with porous asphalt and a meadow. -/
noncomputable def meadow : Footing ℝ := ⟨0.05, 4.0, [⟨20.0, 0.3⟩, ⟨100.0, 1⟩], some 0.2⟩

theorem meadow_softer : roadside.Softer meadow where
  sourceHeight := rfl
  receiverHeight := rfl
  spans := .cons ⟨by norm_num, rfl, by norm_num⟩ (.cons ⟨by norm_num, rfl, by norm_num⟩ .nil)
  sourceFactor := .some (by norm_num)

/-- A footing with two kinds of ground and its own factor near the source. -/
theorem roadside_loss_le : roadside.Softer meadow ∧
    List.Forall₂ (· ≤ ·) (roadside.loss .thirdOctave) (meadow.loss .thirdOctave) ∧
    List.Forall₂ (· ≤ ·) (roadside.favourableLoss .octave) (meadow.favourableLoss .octave) :=
  ⟨meadow_softer, (loss_softer meadow_softer .thirdOctave).1.2,
    (loss_softer meadow_softer .octave).2.2⟩

end Footing

end RoadNoise
