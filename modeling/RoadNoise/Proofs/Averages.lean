/-
# RoadNoise.Proofs.Averages -- the mean factor is an average over the ground

Spans laid end to end make the factor a step function of the distance (`Span.factorAt`).
The mean over a part is its integral over what the part has in common with the ground,
divided by the length of that, and there is a mean exactly if that length is not zero
(`meanFactor?_eq`).  Span by span, the metres that are summed are the integral over the
step from where the span begins to where it ends, both held to the part
(`integral_factorAt`).

Cutting a span in two, joining two neighbours of the same factor and putting in a span
without length leave the step function over the ground as it is (`Span.Recut.factorAt_eq`).
So no mean tells the difference, and neither do the three regions and the loss.
-/
import RoadNoise.Proofs.Reciprocity
import RoadNoise.Proofs.Spans

set_option autoImplicit false

namespace RoadNoise

open MeasureTheory

/-! ## Places held to a part -/

section Held

variable {lo hi x y : ℝ}

theorem clamp_mono (ordered : lo ≤ hi) (forwards : x ≤ y) :
    Scalar.clamp lo hi x ≤ Scalar.clamp lo hi y := by
  rw [clamp_eq ordered, clamp_eq ordered]
  exact max_le_max le_rfl (min_le_min le_rfl forwards)

theorem lt_of_lt_clamp (ordered : lo ≤ hi) (above : lo < x) (before : x < Scalar.clamp lo hi y) :
    x < y := by
  rw [clamp_eq ordered, lt_max_iff] at before
  exact (lt_min_iff.1 (before.resolve_left above.not_gt)).2

theorem lt_of_clamp_lt (ordered : lo ≤ hi) (below : x < hi) (beyond : Scalar.clamp lo hi y < x) :
    y < x := by
  rw [clamp_eq ordered, max_lt_iff, min_lt_iff] at beyond
  exact beyond.2.resolve_left below.not_gt

end Held

/-! ## The step function -/

namespace Span

variable {spans spans' : List (Span ℝ)} {lo hi x : ℝ}

/-- The factor of the ground at a distance from where the spans begin. -/
noncomputable def factorAt (spans : List (Span ℝ)) (x : ℝ) : ℝ :=
  ((Cut.spanAt spans x).map Span.factor).getD 0

theorem factorAt_cons (span : Span ℝ) (rest : List (Span ℝ)) (x : ℝ) :
    factorAt (span :: rest) x
      = if x < span.length then span.factor else factorAt rest (x - span.length) := by
  rw [factorAt, Cut.spanAt]
  split_ifs <;> rfl

/-- Some span covers every distance the spans reach. -/
theorem exists_spanAt_of_lt (start : 0 ≤ x) (stop : x < total spans) :
    ∃ span ∈ spans, Cut.spanAt spans x = some span := by
  induction spans generalizing x with
  | nil => exact absurd start (by simpa [total] using stop)
  | cons span rest ih =>
      rw [Cut.spanAt]
      split_ifs with covered
      · exact ⟨span, List.mem_cons_self, rfl⟩
      · rw [total_cons] at stop
        obtain ⟨later, entry, covers⟩ := ih (sub_nonneg.2 (not_lt.1 covered)) (by linarith)
        exact ⟨later, List.mem_cons_of_mem _ entry, covers⟩

theorem total_nonneg (lengths : ∀ span ∈ spans, 0 ≤ span.length) : 0 ≤ total spans :=
  List.sum_nonneg (by simpa using lengths)

/-- Where the part has ground of the first span, the step function is its factor. -/
theorem eqOn_span (ordered : lo ≤ hi) (start : ℝ) {span : Span ℝ} (long : 0 ≤ span.length)
    (rest : List (Span ℝ)) :
    Set.EqOn (fun _ => span.factor) (fun x => factorAt (span :: rest) (x - start))
      (Set.uIoo (Scalar.clamp lo hi start) (Scalar.clamp lo hi (start + span.length))) := by
  rw [Set.uIoo_of_le (clamp_mono ordered (le_add_of_nonneg_right long))]
  intro x inside
  have before := lt_of_lt_clamp ordered
    ((Scalar.le_clamp start ordered).trans_lt inside.1) inside.2
  simp only [factorAt_cons]
  rw [if_pos (by linarith)]

/-- From there on it is the one of the spans that follow. -/
theorem eqOn_rest (ordered : lo ≤ hi) (start : ℝ) (span : Span ℝ) (rest : List (Span ℝ)) {stop : ℝ}
    (forwards : start + span.length ≤ stop) :
    Set.EqOn (fun x => factorAt rest (x - (start + span.length)))
      (fun x => factorAt (span :: rest) (x - start))
      (Set.uIoo (Scalar.clamp lo hi (start + span.length)) (Scalar.clamp lo hi stop)) := by
  rw [Set.uIoo_of_le (clamp_mono ordered forwards)]
  intro x inside
  have beyond := lt_of_clamp_lt ordered (inside.2.trans_le (Scalar.clamp_le _ ordered)) inside.1
  simp only [factorAt_cons]
  rw [if_neg (by linarith), sub_add_eq_sub_sub]

/-- The weighted metres of spans from `start` on are the integral of their step function,
from one end to the other, each held to the part. -/
theorem integral_factorAt (lengths : ∀ span ∈ spans, 0 ≤ span.length) (ordered : lo ≤ hi)
    (start : ℝ) :
    IntervalIntegrable (fun x => factorAt spans (x - start)) volume
        (Scalar.clamp lo hi start) (Scalar.clamp lo hi (start + total spans)) ∧
      ∫ x in Scalar.clamp lo hi start..Scalar.clamp lo hi (start + total spans),
        factorAt spans (x - start) = weightedShare lo hi start spans := by
  induction spans generalizing start with
  | nil => simp [total, weightedShare]
  | cons span rest ih =>
      obtain ⟨long, lengths⟩ := List.forall_mem_cons.1 lengths
      obtain ⟨integrable, integral⟩ := ih lengths (start + span.length)
      -- the way is cut where the first span ends, and the induction takes it from there
      have onSpan := eqOn_span ordered start long rest
      have onRest := eqOn_rest ordered start span rest
        (le_add_of_nonneg_right (total_nonneg lengths))
      have near : IntervalIntegrable (fun x => factorAt (span :: rest) (x - start)) volume _ _ :=
        intervalIntegrable_const.congr_uIoo onSpan
      have far := integrable.congr_uIoo onRest
      rw [total_cons, ← add_assoc]
      refine ⟨near.trans far, ?_⟩
      rw [← intervalIntegral.integral_add_adjacent_intervals near far,
        ← intervalIntegral.integral_congr_uIoo onSpan,
        ← intervalIntegral.integral_congr_uIoo onRest, integral, intervalIntegral.integral_const,
        weightedShare, share, smul_eq_mul]

/-! ## Means -/

/-- What the part from `lo` to `hi` has in common with the ground under the spans. -/
def part (spans : List (Span ℝ)) (lo hi : ℝ) : Set ℝ := Set.Icc lo hi ∩ Set.Icc 0 (total spans)

theorem part_eq (spans : List (Span ℝ)) (lo hi : ℝ) :
    part spans lo hi = Set.Icc (max lo 0) (min hi (total spans)) :=
  Set.Icc_inter_Icc

theorem volume_part (spans : List (Span ℝ)) (lo hi : ℝ) :
    volume.real (part spans lo hi) = max (min hi (total spans) - max lo 0) 0 := by
  rw [part_eq, Real.volume_real_Icc]

theorem volume_part_ne_top (spans : List (Span ℝ)) (lo hi : ℝ) :
    volume (part spans lo hi) ≠ ⊤ := by
  rw [part_eq]
  exact measure_Icc_lt_top.ne

/-- The metres that are summed are the length of the part that has ground. -/
theorem share_total (lengths : ∀ span ∈ spans, 0 ≤ span.length) (ordered : lo ≤ hi) :
    share lo hi 0 (total spans) = volume.real (part spans lo hi) := by
  rw [share_eq ordered (total_nonneg lengths), volume_part, min_comm, max_comm (0 : ℝ)]

/-- Where the part has ground, it reaches from the one end of the ground held to it to the
other. -/
theorem part_eq_clamp (ground : 0 < volume.real (part spans lo hi)) :
    lo < hi ∧ part spans lo hi = Set.Icc (Scalar.clamp lo hi 0) (Scalar.clamp lo hi (total spans)) ∧
      Scalar.clamp lo hi 0 < Scalar.clamp lo hi (total spans) := by
  rw [volume_part, lt_max_iff, sub_pos, max_lt_iff, lt_min_iff, lt_min_iff] at ground
  obtain ⟨⟨ordered, low⟩, high, long⟩ := ground.resolve_right (lt_irrefl _)
  rw [part_eq, clamp_eq ordered.le, clamp_eq ordered.le, min_eq_right high.le,
    max_eq_right (le_min ordered.le low.le)]
  exact ⟨ordered, rfl, max_lt (lt_min ordered low) (lt_min high long)⟩

theorem weightedShare_eq_integral (lengths : ∀ span ∈ spans, 0 ≤ span.length)
    (ground : 0 < volume.real (part spans lo hi)) :
    IntegrableOn (factorAt spans) (part spans lo hi) ∧
      weightedShare lo hi 0 spans = ∫ x in part spans lo hi, factorAt spans x := by
  obtain ⟨ordered, same, forwards⟩ := part_eq_clamp ground
  obtain ⟨integrable, integral⟩ := integral_factorAt lengths ordered.le 0
  simp only [zero_add, sub_zero] at integrable integral
  rw [same, integral_Icc_eq_integral_Ioc, ← intervalIntegral.integral_of_le forwards.le, integral]
  exact ⟨(intervalIntegrable_iff_integrableOn_Icc_of_le forwards.le).1 integrable, rfl⟩

/-- A part without extent has no ground. -/
theorem volume_part_of_le (spans : List (Span ℝ)) (empty : hi ≤ lo) :
    volume.real (part spans lo hi) = 0 := by
  rw [volume_part, max_eq_right]
  exact sub_nonpos.2 ((min_le_left _ _).trans (empty.trans (le_max_left _ _)))

/-- There is a mean exactly of a part that has ground, and it is the average of the step
function there. -/
theorem meanFactor?_eq (lengths : ∀ span ∈ spans, 0 ≤ span.length) (lo hi : ℝ) :
    meanFactor? spans lo hi
      = if 0 < volume.real (part spans lo hi) then
          some ((∫ x in part spans lo hi, factorAt spans x) / volume.real (part spans lo hi))
        else none := by
  unfold meanFactor?
  rcases le_or_gt hi lo with empty | ordered
  · rw [if_pos empty, volume_part_of_le spans empty, if_neg (lt_irrefl _)]
  · rw [if_neg ordered.not_ge, coverage_eq lengths ordered.le]
    simp only [zero_add, share_total lengths ordered.le]
    split_ifs with ground
    · rw [(weightedShare_eq_integral lengths ground).2]
    · rfl

/-! ## Between the factors that are met -/

/-- The span covers a place inside of what the part has in common with the ground. -/
def Met (spans : List (Span ℝ)) (lo hi : ℝ) (span : Span ℝ) : Prop :=
  ∃ x ∈ interior (part spans lo hi), Cut.spanAt spans x = some span

/-- Inside of the part the step function has the factors of the spans that are met. -/
theorem exists_met (inside : x ∈ interior (part spans lo hi)) :
    ∃ span ∈ spans, Met spans lo hi span ∧ factorAt spans x = span.factor := by
  have within := inside
  rw [part_eq, interior_Icc, Set.mem_Ioo, max_lt_iff, lt_min_iff] at within
  obtain ⟨span, entry, covers⟩ := exists_spanAt_of_lt within.1.2.le within.2.2
  exact ⟨span, entry, ⟨x, inside, covers⟩, by rw [factorAt, covers]; rfl⟩

/-- An average is between two values of the function, and those are taken inside of the part
as well, since its two ends do not count. -/
theorem average_between (lengths : ∀ span ∈ spans, 0 ≤ span.length)
    (ground : 0 < volume.real (part spans lo hi)) {mean : ℝ}
    (average : mean
      = (∫ x in part spans lo hi, factorAt spans x) / volume.real (part spans lo hi)) :
    (∃ span ∈ spans, Met spans lo hi span ∧ span.factor ≤ mean) ∧
      ∃ span ∈ spans, Met spans lo hi span ∧ mean ≤ span.factor := by
  have inner : interior (part spans lo hi) =ᵐ[volume] part spans lo hi := by
    rw [part_eq, interior_Icc]
    exact Ioo_ae_eq_Icc
  have inside : ⨍ x in interior (part spans lo hi), factorAt spans x = mean := by
    rw [average, setAverage_congr inner, setAverage_eq, smul_eq_mul, inv_mul_eq_div]
  have extended : volume (interior (part spans lo hi)) ≠ 0 := by
    rw [measure_congr inner]
    exact fun none => ground.ne' (by rw [measureReal_def, none, ENNReal.toReal_zero])
  have bounded : volume (interior (part spans lo hi)) ≠ ⊤ := by
    rw [measure_congr inner]
    exact volume_part_ne_top spans lo hi
  have integrable := (weightedShare_eq_integral lengths ground).1.mono_set interior_subset
  constructor
  · obtain ⟨x, place, least⟩ := exists_le_setAverage extended bounded integrable
    obtain ⟨span, entry, met, factor⟩ := exists_met place
    exact ⟨span, entry, met, by rwa [inside, factor] at least⟩
  · obtain ⟨x, place, greatest⟩ := exists_setAverage_le extended bounded integrable
    obtain ⟨span, entry, met, factor⟩ := exists_met place
    exact ⟨span, entry, met, by rwa [inside, factor] at greatest⟩

/-! ## The same ground in other spans -/

/-- Spans with the same factor cut in two or joined, and spans without length put in or taken
out, anywhere and any number of times. -/
inductive Recut : List (Span ℝ) → List (Span ℝ) → Prop
  | refl (spans : List (Span ℝ)) : Recut spans spans
  | cut (a b g : ℝ) (rest : List (Span ℝ)) (first : 0 ≤ a) (second : 0 ≤ b) :
      Recut (⟨a + b, g⟩ :: rest) (⟨a, g⟩ :: ⟨b, g⟩ :: rest)
  | empty (g : ℝ) (rest : List (Span ℝ)) : Recut (⟨0, g⟩ :: rest) rest
  | cons (span : Span ℝ) {rest rest' : List (Span ℝ)} (later : Recut rest rest') :
      Recut (span :: rest) (span :: rest')
  | symm {spans spans' : List (Span ℝ)} (other : Recut spans spans') : Recut spans' spans
  | trans {spans spans' spans'' : List (Span ℝ)} (first : Recut spans spans')
      (second : Recut spans' spans'') : Recut spans spans''

namespace Recut

theorem total_eq (same : Recut spans spans') : total spans = total spans' := by
  induction same with
  | refl => rfl
  | cut a b g rest => simp only [total_cons, add_assoc]
  | empty g rest => rw [total_cons, zero_add]
  | cons span later ih => rw [total_cons, total_cons, ih]
  | symm other ih => exact ih.symm
  | trans first second ih ih' => exact ih.trans ih'

theorem lengths_iff (same : Recut spans spans') :
    (∀ span ∈ spans, 0 ≤ span.length) ↔ ∀ span ∈ spans', 0 ≤ span.length := by
  induction same with
  | refl => rfl
  | cut a b g rest first second =>
      simp only [List.forall_mem_cons]
      exact ⟨fun ⟨_, later⟩ => ⟨first, second, later⟩,
        fun ⟨_, _, later⟩ => ⟨add_nonneg first second, later⟩⟩
  | empty g rest =>
      rw [List.forall_mem_cons]
      exact and_iff_right le_rfl
  | cons span later ih => rw [List.forall_mem_cons, List.forall_mem_cons, ih]
  | symm other ih => exact ih.symm
  | trans first second ih ih' => exact ih.trans ih'

/-- From the beginning on the step function is the same. -/
theorem factorAt_eq (same : Recut spans spans') {x : ℝ} (start : 0 ≤ x) :
    factorAt spans x = factorAt spans' x := by
  induction same generalizing x with
  | refl => rfl
  | cut a b g rest first second =>
      rw [factorAt_cons, factorAt_cons ⟨a, g⟩, factorAt_cons ⟨b, g⟩]
      dsimp only
      rcases lt_or_ge x a with near | far
      · rw [if_pos (by linarith), if_pos near]
      · rw [if_neg far.not_gt, sub_sub]
        exact if_congr (sub_lt_iff_lt_add'.symm) rfl rfl
  | empty g rest => rw [factorAt_cons, if_neg start.not_gt, sub_zero]
  | cons span later ih =>
      rw [factorAt_cons, factorAt_cons]
      split_ifs with covered
      · rfl
      · exact ih (sub_nonneg.2 (not_lt.1 covered))
  | symm other ih => exact (ih start).symm
  | trans first second ih ih' => exact (ih start).trans (ih' start)

theorem meanFactor?_recut (same : Recut spans spans')
    (lengths : ∀ span ∈ spans, 0 ≤ span.length) (lo hi : ℝ) :
    meanFactor? spans' lo hi = meanFactor? spans lo hi := by
  have ground : part spans' lo hi = part spans lo hi := by rw [part, part, same.total_eq]
  have integral : ∫ x in part spans lo hi, factorAt spans' x
      = ∫ x in part spans lo hi, factorAt spans x :=
    setIntegral_congr_fun (measurableSet_Icc.inter measurableSet_Icc)
      fun _ inside => (same.factorAt_eq inside.2.1).symm
  rw [meanFactor?_eq lengths, meanFactor?_eq (same.lengths_iff.1 lengths), ground, integral]

theorem factors_recut (same : Recut spans spans') (lengths : ∀ span ∈ spans, 0 ≤ span.length)
    (hs hr : ℝ) (near : Option ℝ) :
    Footing.factors ⟨hs, hr, spans', near⟩ = Footing.factors ⟨hs, hr, spans, near⟩ := by
  simp only [Footing.factors, Footing.length_eq, same.total_eq, same.meanFactor?_recut lengths]

/-- The ground takes the same from sound, at whatever heights the ends count. -/
theorem lossAtHeights_recut (same : Recut spans spans')
    (lengths : ∀ span ∈ spans, 0 ≤ span.length) (hs hr : ℝ) (near : Option ℝ) (bands : BandSet)
    (hs' hr' : ℝ) :
    Footing.lossAtHeights ⟨hs, hr, spans', near⟩ bands hs' hr'
      = Footing.lossAtHeights ⟨hs, hr, spans, near⟩ bands hs' hr' := by
  simp only [Footing.lossAtHeights, Footing.length_eq, same.total_eq,
    same.factors_recut lengths hs hr near]

theorem favourableHeights_recut (same : Recut spans spans') (hs hr : ℝ) (near : Option ℝ) :
    Footing.favourableHeights ⟨hs, hr, spans', near⟩
      = Footing.favourableHeights ⟨hs, hr, spans, near⟩ := by
  simp only [Footing.favourableHeights, Footing.length_eq, same.total_eq]

end Recut

/-- The mean factor of a part is the average of the step function over what the part has in
common with the ground, and there is none exactly if that has no length.  It is between the
factors of two spans that are met there, and it does not depend on how the ground is cut
into spans; so neither do the three regions and the loss by the ground. -/
theorem mean_average (lengths : ∀ span ∈ spans, 0 ≤ span.length) (lo hi : ℝ) :
    (meanFactor? spans lo hi = none ↔ hi ≤ lo ∨ volume (part spans lo hi) = 0) ∧
    (∀ mean, meanFactor? spans lo hi = some mean →
      (IntegrableOn (factorAt spans) (part spans lo hi) ∧ mean
        = (∫ x in part spans lo hi, factorAt spans x) / volume.real (part spans lo hi)) ∧
      (∃ span ∈ spans, Met spans lo hi span ∧ span.factor ≤ mean) ∧
      ∃ span ∈ spans, Met spans lo hi span ∧ mean ≤ span.factor) ∧
    ∀ spans', Recut spans spans' →
      meanFactor? spans' lo hi = meanFactor? spans lo hi ∧
      ∀ (hs hr : ℝ) (near : Option ℝ),
        Footing.factors ⟨hs, hr, spans', near⟩ = Footing.factors ⟨hs, hr, spans, near⟩ ∧
        ∀ bands, Footing.loss ⟨hs, hr, spans', near⟩ bands
            = Footing.loss ⟨hs, hr, spans, near⟩ bands ∧
          Footing.favourableLoss ⟨hs, hr, spans', near⟩ bands
            = Footing.favourableLoss ⟨hs, hr, spans, near⟩ bands := by
  refine ⟨?_, fun mean isMean => ?_, fun spans' same => ⟨same.meanFactor?_recut lengths lo hi, ?_⟩⟩
  · rw [← measureReal_eq_zero_iff (volume_part_ne_top spans lo hi), meanFactor?_eq lengths]
    split_ifs with ground
    · simp only [false_iff, not_or]
      exact ⟨fun empty => ground.ne' (volume_part_of_le spans empty), ground.ne'⟩
    · simp only [true_iff]
      exact .inr (le_antisymm (not_lt.1 ground) measureReal_nonneg)
  · rw [meanFactor?_eq lengths] at isMean
    split_ifs at isMean with ground
    have average := (Option.some_inj.1 isMean).symm
    exact ⟨⟨(weightedShare_eq_integral lengths ground).1, average⟩,
      average_between lengths ground average⟩
  · intro hs hr near
    refine ⟨same.factors_recut lengths hs hr near, fun bands => ⟨?_, ?_⟩⟩
    · exact same.lossAtHeights_recut lengths hs hr near bands hs hr
    · rw [Footing.favourableLoss, Footing.favourableLoss, same.favourableHeights_recut]
      exact same.lossAtHeights_recut lengths hs hr near bands _ _

/-- Of the verge from 20 to 50 metres, two thirds are lawn; the mean is the same without the
ditch and with the lawn in two. -/
theorem verge_average : (∀ span ∈ Footing.verge.spans, 0 ≤ span.length) ∧
    meanFactor? Footing.verge.spans 20 50 = some (2 / 3) ∧
    2 / 3 = (∫ x in part Footing.verge.spans 20 50, factorAt Footing.verge.spans x)
      / volume.real (part Footing.verge.spans 20 50) ∧
    Recut Footing.verge.spans [⟨30, 0⟩, ⟨100, 1⟩, ⟨70, 1⟩] ∧
    meanFactor? ([⟨30, 0⟩, ⟨100, 1⟩, ⟨70, 1⟩] : List (Span ℝ)) 20 50 = some (2 / 3) := by
  have lengths : ∀ span ∈ Footing.verge.spans, 0 ≤ span.length := by
    norm_num [Footing.verge]
  have mean : meanFactor? Footing.verge.spans 20 50 = some (2 / 3) := by
    norm_num [meanFactor?, coverage, Footing.verge]
  have same : Recut Footing.verge.spans [⟨30, 0⟩, ⟨100, 1⟩, ⟨70, 1⟩] := by
    have lawn := Recut.cut 100 70 1 [] (by norm_num) (by norm_num)
    norm_num at lawn
    norm_num [Footing.verge]
    exact ((Recut.empty _ _).trans lawn).cons _
  have average := mean_average lengths 20 50
  exact ⟨lengths, mean, (average.2.1 _ mean).1.2, same, (average.2.2 _ same).1.trans mean⟩

end Span

end RoadNoise
