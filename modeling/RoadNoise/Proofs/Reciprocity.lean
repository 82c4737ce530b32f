/-
# RoadNoise.Proofs.Reciprocity -- source and receiver change places

Read from the receiver, the ground under a path has its spans in the opposite order and
its two heights exchanged.  The region near the source is then the mirror image of what
was the region near the receiver, and a part of the spans has the mean factor of the
mirrored part of the reversed spans (`meanFactor?_reverse`): what a span adds to a part
is the difference of its two ends held to the part, and holding commutes with the mirror.
So the outer two of the three regions are exchanged, and since the terms do not tell them
apart, the ground takes the same from sound either way (`loss_reversed`).

A factor that is set for the ground near the source is no property of the ground, and
there is no such factor for the receiver; without one the theorem has no exception.
-/
import RoadNoise.Proofs.Exact
import RoadNoise.Loss.Ground

set_option autoImplicit false

namespace RoadNoise

/-! ## Shares -/

theorem clamp_eq {lo hi : ℝ} (ordered : lo ≤ hi) (x : ℝ) :
    Scalar.clamp lo hi x = max lo (min hi x) := by
  unfold Scalar.clamp
  split_ifs with below above
  · rw [max_eq_left ((min_le_right _ _).trans below.le)]
  · rw [min_eq_left above.le, max_eq_right ordered]
  · rw [min_eq_right (not_lt.1 above), max_eq_right (not_lt.1 below)]

/-- A mirror changes the place held to a part and the bounds alike. -/
theorem clamp_mirror {lo hi : ℝ} (ordered : lo ≤ hi) (place x : ℝ) :
    Scalar.clamp (place - hi) (place - lo) (place - x) = place - Scalar.clamp lo hi x := by
  unfold Scalar.clamp
  split_ifs <;> linarith

namespace Span

/-- The metres from `start` to `stop` that lie in the part from `lo` to `hi`. -/
noncomputable def share (lo hi start stop : ℝ) : ℝ :=
  Scalar.clamp lo hi stop - Scalar.clamp lo hi start

/-- The metres of all spans. -/
def total (spans : List (Span ℝ)) : ℝ := (spans.map Span.length).sum

/-- The metres of the spans from `start` on that lie in a part, weighted by their factor. -/
noncomputable def weightedShare (lo hi start : ℝ) : List (Span ℝ) → ℝ
  | [] => 0
  | span :: rest => share lo hi start (start + span.length) * span.factor
      + weightedShare lo hi (start + span.length) rest

/-- What a span has in common with a part, if anything. -/
theorem share_eq {lo hi start stop : ℝ} (ordered : lo ≤ hi) (forwards : start ≤ stop) :
    share lo hi start stop = max (min stop hi - max start lo) 0 := by
  rw [share, clamp_eq ordered, clamp_eq ordered]
  rcases le_total stop lo with before | after
  · have none : min stop hi - max start lo ≤ 0 :=
      sub_nonpos.2 ((min_le_left _ _).trans (before.trans (le_max_right _ _)))
    rw [max_eq_right none, min_eq_right (before.trans ordered), max_eq_left before,
      min_eq_right (forwards.trans (before.trans ordered)), max_eq_left (forwards.trans before),
      sub_self]
  · rcases le_total hi start with beyond | within
    · have none : min stop hi - max start lo ≤ 0 :=
        sub_nonpos.2 ((min_le_right _ _).trans (beyond.trans (le_max_left _ _)))
      rw [max_eq_right none, min_eq_left (beyond.trans forwards), min_eq_left beyond, sub_self]
    · have meets : 0 ≤ min stop hi - max start lo :=
        sub_nonneg.2 (max_le (le_min forwards within) (le_min after ordered))
      rw [max_eq_left meets, min_eq_right within, max_eq_right (le_min ordered after),
        min_comm stop hi, max_comm start lo]

theorem share_add (lo hi start middle stop : ℝ) :
    share lo hi start middle + share lo hi middle stop = share lo hi start stop := by
  simp only [share]
  ring

/-- Seen from a place beyond, a span has the same share of the part. -/
theorem share_mirror {lo hi : ℝ} (ordered : lo ≤ hi) (place start stop : ℝ) :
    share (place - hi) (place - lo) (place - stop) (place - start) = share lo hi start stop := by
  rw [share, share, clamp_mirror ordered, clamp_mirror ordered]
  ring

theorem total_cons (span : Span ℝ) (rest : List (Span ℝ)) :
    total (span :: rest) = span.length + total rest := by
  rw [total, total, List.map_cons, List.sum_cons]

theorem total_reverse (spans : List (Span ℝ)) : total spans.reverse = total spans := by
  rw [total, List.map_reverse, List.sum_reverse, total]

theorem weightedShare_append (lo hi start : ℝ) (front back : List (Span ℝ)) :
    weightedShare lo hi start (front ++ back)
      = weightedShare lo hi start front + weightedShare lo hi (start + total front) back := by
  induction front generalizing start with
  | nil => simp [weightedShare, total]
  | cons span front ih =>
      rw [List.cons_append, weightedShare, weightedShare, ih, total_cons]
      ring_nf

theorem weightedShare_reverse {lo hi : ℝ} (ordered : lo ≤ hi) (place start : ℝ)
    (spans : List (Span ℝ)) :
    weightedShare (place - hi) (place - lo) (place - (start + total spans)) spans.reverse
      = weightedShare lo hi start spans := by
  induction spans generalizing start with
  | nil => simp [weightedShare]
  | cons span rest ih =>
      have stop : place - (start + span.length + total rest) + total rest
          = place - (start + span.length) := by
        ring
      have first : place - (start + span.length) + span.length = place - start := by
        ring
      rw [List.reverse_cons, weightedShare_append, total_cons, ← add_assoc, ih, total_reverse,
        stop, weightedShare, weightedShare, weightedShare, first, share_mirror ordered]
      ring

end Span

/-! ## Mean factors -/

section Means

variable {spans : List (Span ℝ)}

theorem coverage_eq (lengths : ∀ span ∈ spans, 0 ≤ span.length) {lo hi : ℝ} (ordered : lo ≤ hi)
    (start weighted covered : ℝ) : coverage lo hi start weighted covered spans
      = (weighted + Span.weightedShare lo hi start spans,
        covered + Span.share lo hi start (start + Span.total spans)) := by
  induction spans generalizing start weighted covered with
  | nil => simp [coverage, Span.weightedShare, Span.total, Span.share]
  | cons span rest ih =>
      obtain ⟨long, lengths⟩ := List.forall_mem_cons.1 lengths
      have common := Span.share_eq ordered (le_add_of_nonneg_right (a := start) long)
      have joined := Span.share_add lo hi start (start + span.length)
        (start + span.length + Span.total rest)
      rw [coverage, Span.weightedShare, Span.total_cons,
        ← add_assoc start, ← joined, common]
      split_ifs with meets
      · rw [ih lengths, max_eq_left meets.le]
        ring_nf
      · rw [ih lengths, max_eq_right (not_lt.1 meets)]
        ring_nf

/-- The mirrored part of the reversed spans has the same mean factor. -/
theorem meanFactor?_reverse (lengths : ∀ span ∈ spans, 0 ≤ span.length) (lo hi : ℝ) :
    meanFactor? spans.reverse (Span.total spans - hi) (Span.total spans - lo)
      = meanFactor? spans lo hi := by
  have lengths' : ∀ span ∈ spans.reverse, 0 ≤ span.length := fun span entry =>
    lengths span (List.mem_reverse.1 entry)
  unfold meanFactor?
  rcases le_or_gt hi lo with empty | ordered
  · rw [if_pos empty, if_pos (sub_le_sub_left empty _)]
  · have weight := Span.weightedShare_reverse ordered.le (Span.total spans) 0 spans
    have cover := Span.share_mirror ordered.le (Span.total spans) 0 (Span.total spans)
    rw [zero_add, sub_self] at weight
    rw [sub_self, sub_zero] at cover
    rw [if_neg ordered.not_ge, if_neg (sub_lt_sub_left ordered _).not_ge,
      coverage_eq lengths ordered.le, coverage_eq lengths' (sub_lt_sub_left ordered _).le,
      Span.total_reverse]
    simp only [zero_add, weight, cover]

end Means

/-! ## Regions -/

/-- The term between does not tell the two ends apart. -/
theorem middleTerm_comm (octave : Fin 8) (g hs hr dp : ℝ) :
    middleTerm octave g hr hs dp = middleTerm octave g hs hr dp := by
  simp only [middleTerm, add_comm hr hs]

theorem groundTerm_swap (octave : Fin 8) (near middle far hs hr dp : ℝ) :
    groundTerm octave (far, middle, near) hr hs dp
      = groundTerm octave (near, middle, far) hs hr dp := by
  simp only [groundTerm, middleTerm_comm octave middle hs hr dp,
    add_comm (outerTerm octave far hr dp)]

namespace Footing

/-- The same ground, read from the receiver. -/
def reversed (f : Footing ℝ) : Footing ℝ :=
  ⟨f.receiverHeight, f.sourceHeight, f.spans.reverse, f.sourceFactor⟩

@[simp] theorem sourceHeight_reversed (f : Footing ℝ) :
    f.reversed.sourceHeight = f.receiverHeight := rfl

@[simp] theorem receiverHeight_reversed (f : Footing ℝ) :
    f.reversed.receiverHeight = f.sourceHeight := rfl

@[simp] theorem spans_reversed (f : Footing ℝ) : f.reversed.spans = f.spans.reverse := rfl

@[simp] theorem sourceFactor_reversed (f : Footing ℝ) :
    f.reversed.sourceFactor = f.sourceFactor := rfl

variable {f : Footing ℝ}

theorem length_eq (f : Footing ℝ) : f.length = Span.total f.spans := by
  rw [Footing.length, Scalar.sum_eq, Span.total]

theorem length_reversed (f : Footing ℝ) : f.reversed.length = f.length := by
  rw [length_eq, length_eq, spans_reversed, Span.total_reverse]

theorem factors_reversed (lengths : ∀ span ∈ f.spans, 0 ≤ span.length)
    (plain : f.sourceFactor = none) :
    f.reversed.factors = (f.factors.2.2, f.factors.2.1, f.factors.1) := by
  -- the regions end where their mirror images begin
  have source : min (30 * f.receiverHeight) f.length
      = f.length - max (f.length - 30 * f.receiverHeight) 0 := by
    rw [← min_sub_sub_left, sub_sub_cancel, sub_zero]
  have receiver : max (f.length - 30 * f.sourceHeight) 0
      = f.length - min (30 * f.sourceHeight) f.length := by
    rw [← max_sub_sub_left, sub_self]
  have mean (lo hi : ℝ) :
      meanFactor? f.spans.reverse (f.length - hi) (f.length - lo) = meanFactor? f.spans lo hi := by
    rw [length_eq]
    exact meanFactor?_reverse lengths lo hi
  have all : meanFactor? f.spans.reverse 0 f.length = meanFactor? f.spans 0 f.length := by
    have whole := mean 0 f.length
    rwa [sub_self, sub_zero] at whole
  have first (hi : ℝ) := mean hi f.length
  have last (lo : ℝ) := mean 0 lo
  simp only [sub_self] at first
  simp only [sub_zero] at last
  simp only [factors, sourceHeight_reversed, receiverHeight_reversed, spans_reversed,
    sourceFactor_reversed, length_reversed, plain, Option.getD_none, source, receiver, all, mean,
    first, last]

theorem favourableHeights_reversed (f : Footing ℝ) :
    f.reversed.favourableHeights = f.favourableHeights.swap := by
  simp only [favourableHeights, length_reversed, sourceHeight_reversed, receiverHeight_reversed,
    add_comm f.receiverHeight f.sourceHeight]
  split_ifs <;> rfl

theorem lossAtHeights_reversed (lengths : ∀ span ∈ f.spans, 0 ≤ span.length)
    (plain : f.sourceFactor = none) (bands : BandSet) (hs hr : ℝ) :
    f.reversed.lossAtHeights bands hr hs = f.lossAtHeights bands hs hr := by
  simp only [lossAtHeights, length_reversed, factors_reversed lengths plain, groundTerm_swap]

/-- The ground takes as much in every band if source and receiver change places, wherever
the rays bend: the regions near the two are exchanged and so are their heights. -/
theorem loss_reversed (lengths : ∀ span ∈ f.spans, 0 ≤ span.length)
    (plain : f.sourceFactor = none) (bands : BandSet) :
    (f.reversed.loss bands = f.loss bands ∧
      f.reversed.favourableLoss bands = f.favourableLoss bands) ∧
    f.reversed.factors = (f.factors.2.2, f.factors.2.1, f.factors.1) ∧
    f.reversed.favourableHeights = f.favourableHeights.swap := by
  refine ⟨⟨?_, ?_⟩, factors_reversed lengths plain, f.favourableHeights_reversed⟩
  · exact lossAtHeights_reversed lengths plain bands _ _
  · rw [favourableLoss, favourableLoss, favourableHeights_reversed]
    exact lossAtHeights_reversed lengths plain bands _ _

/-- Asphalt, a ditch without width and a lawn, over 200 metres. -/
noncomputable def verge : Footing ℝ := ⟨0.5, 4.0, [⟨30.0, 0⟩, ⟨0, 0.7⟩, ⟨170.0, 1⟩], none⟩

/-- The outer regions of this footing differ in extent and in ground. -/
theorem verge_loss_eq : (∀ span ∈ verge.spans, 0 ≤ span.length) ∧ verge.sourceFactor = none ∧
    Footing.loss (⟨4.0, 0.5, [⟨170.0, 1⟩, ⟨0, 0.7⟩, ⟨30.0, 0⟩], none⟩ : Footing ℝ) .thirdOctave
      = verge.loss .thirdOctave := by
  have lengths : ∀ span ∈ verge.spans, 0 ≤ span.length := by
    norm_num [verge]
  exact ⟨lengths, rfl, (loss_reversed (f := verge) lengths rfl .thirdOctave).1.1⟩

end Footing

end RoadNoise
