/-
# RoadNoise.Proofs.Mixed -- conditions that hold part of the time

Over the long term a path loses what the mean of two powers loses, and `longTerm` says so in
three branches: conditions that are never favourable, always, or a share of the time.  They
are one formula.  A loss is a level with the other sign, and of two levels it is the mean of
their powers, taken back to decibels (`Level.mean`); the outer branches are the cases in
which one of the weights is zero (`longTerm_eq`).

Everything else is read off the power of that mean (`Level.power_mean`), which is a straight
line in the share: it lies between its two ends, rises towards the louder of them, and is at
least what either end adds to it.  Two bands of a path may lean to different sides, so the
total of `Losses.total_mixed` is followed band by band.
-/
import RoadNoise.Proofs.Powers

set_option autoImplicit false

namespace RoadNoise

/-! ## The mean of two levels -/

namespace Level

/-- The level of the mean power, where a share `p` of the time has the level `x` and the rest
of it `y`. -/
def mean {α : Type} [Scalar α] (p x y : α) : α :=
  10 * Scalar.log10 (p * power x + (1 - p) * power y)

variable {p q x y level : ℝ}

@[simp] theorem mean_zero (x y : ℝ) : mean 0 x y = y := by
  rw [mean, Scalar.log10_eq, zero_mul, zero_add, sub_zero, one_mul, logb_power]
  exact mul_div_cancel₀ y (by norm_num)

/-- It does not matter which of the two is named first. -/
theorem mean_swap (p x y : ℝ) : mean (1 - p) y x = mean p x y := by
  rw [mean, mean, sub_sub_cancel, add_comm]

@[simp] theorem mean_one (x y : ℝ) : mean 1 x y = x := by
  rw [← mean_swap, sub_self, mean_zero]

theorem mixed_power_pos (start : 0 ≤ p) (stop : p ≤ 1) (x y : ℝ) :
    0 < p * power x + (1 - p) * power y := by
  rcases start.eq_or_lt with rfl | positive
  · simpa using power_pos y
  · exact add_pos_of_pos_of_nonneg (mul_pos positive (power_pos x))
      (mul_nonneg (sub_nonneg.2 stop) (power_pos y).le)

theorem power_mean (start : 0 ≤ p) (stop : p ≤ 1) :
    power (mean p x y) = p * power x + (1 - p) * power y :=
  power_logb (mixed_power_pos start stop x y)

theorem le_mean (start : 0 ≤ p) (stop : p ≤ 1) (first : level ≤ x) (second : level ≤ y) :
    level ≤ mean p x y := by
  have rest : 0 ≤ 1 - p := sub_nonneg.2 stop
  rw [← power_le_iff, power_mean start stop]
  calc power level
    _ = p * power level + (1 - p) * power level := by ring
    _ ≤ p * power x + (1 - p) * power y :=
      add_le_add (mul_le_mul_of_nonneg_left (power_mono first) start)
        (mul_le_mul_of_nonneg_left (power_mono second) rest)

/-- The more of the time is louder, the louder the mean. -/
theorem mean_le_mean (start : 0 ≤ p) (more : p ≤ q) (stop : q ≤ 1) (louder : y ≤ x) :
    mean p x y ≤ mean q x y := by
  have gain : p * (power x - power y) ≤ q * (power x - power y) :=
    mul_le_mul_of_nonneg_right more (sub_nonneg.2 (power_mono louder))
  rw [← power_le_iff, power_mean start (more.trans stop), power_mean (start.trans more) stop]
  linarith

/-- What is there a share of the time is heard with that share of its power, whatever is
there the rest of it. -/
theorem add_logb_le_mean (positive : 0 < p) (stop : p ≤ 1) (x y : ℝ) :
    x + 10 * Real.logb 10 p ≤ mean p x y := by
  have rest : 0 ≤ (1 - p) * power y := mul_nonneg (sub_nonneg.2 stop) (power_pos y).le
  rw [← power_le_iff, power_add, power_logb positive, power_mean positive.le stop]
  linarith

/-- Two levels that are raised alike raise their mean as much. -/
theorem mean_add (start : 0 ≤ p) (stop : p ≤ 1) (level x y : ℝ) :
    mean p (level + x) (level + y) = level + mean p x y := by
  have raised : p * power (level + x) + (1 - p) * power (level + y)
      = power level * (p * power x + (1 - p) * power y) := by
    rw [power_add, power_add]
    ring
  rw [mean, mean, raised, Scalar.log10_eq, Scalar.log10_eq,
    Real.logb_mul (power_pos level).ne' (mixed_power_pos start stop x y).ne', logb_power, mul_add,
    mul_div_cancel₀ level (by norm_num)]

end Level

/-! ## The long-term loss -/

section LongTerm

variable {p q h f : ℝ}

/-- The three branches are one mean. -/
theorem longTerm_eq (start : 0 ≤ p) (stop : p ≤ 1) (h f : ℝ) :
    longTerm p h f = -Level.mean p (-f) (-h) := by
  unfold longTerm
  split_ifs with never always
  · rw [le_antisymm never start, Level.mean_zero, neg_neg]
  · rw [le_antisymm stop always, Level.mean_one, neg_neg]
  · rw [neg_mul]
    rfl

theorem power_neg_longTerm (start : 0 ≤ p) (stop : p ≤ 1) :
    Level.power (-longTerm p h f) = p * Level.power (-f) + (1 - p) * Level.power (-h) := by
  rw [longTerm_eq start stop, neg_neg, Level.power_mean start stop]

theorem longTerm_le {most : ℝ} (start : 0 ≤ p) (stop : p ≤ 1) (homogeneous : h ≤ most)
    (favourable : f ≤ most) : longTerm p h f ≤ most := by
  rw [longTerm_eq start stop, neg_le]
  exact Level.le_mean start stop (neg_le_neg favourable) (neg_le_neg homogeneous)

theorem longTerm_antitone (start : 0 ≤ p) (more : p ≤ q) (stop : q ≤ 1) (farther : f ≤ h) :
    longTerm q h f ≤ longTerm p h f := by
  rw [longTerm_eq start (more.trans stop), longTerm_eq (start.trans more) stop]
  exact neg_le_neg (Level.mean_le_mean start more stop (neg_le_neg farther))

theorem longTerm_swap (start : 0 ≤ p) (stop : p ≤ 1) (h f : ℝ) :
    longTerm (1 - p) f h = longTerm p h f := by
  rw [longTerm_eq (sub_nonneg.2 stop) (sub_le_self 1 start), longTerm_eq start stop,
    Level.mean_swap]

theorem longTerm_monotone (start : 0 ≤ p) (more : p ≤ q) (stop : q ≤ 1) (nearer : h ≤ f) :
    longTerm p h f ≤ longTerm q h f := by
  rw [← longTerm_swap start (more.trans stop), ← longTerm_swap (start.trans more) stop]
  exact longTerm_antitone (sub_nonneg.2 stop) (sub_le_sub_left more 1)
    (sub_le_self 1 start) nearer

theorem longTerm_sub_le_of_pos (positive : 0 < p) (stop : p ≤ 1) (h f : ℝ) :
    longTerm p h f - f ≤ -10 * Real.logb 10 p := by
  rw [longTerm_eq positive.le stop]
  linarith [Level.add_logb_le_mean positive stop (-f) (-h)]

theorem longTerm_sub_le_of_lt_one (start : 0 ≤ p) (stop : p < 1) (h f : ℝ) :
    longTerm p h f - h ≤ -10 * Real.logb 10 (1 - p) := by
  rw [← longTerm_swap start stop.le]
  exact longTerm_sub_le_of_pos (sub_pos.2 stop) (sub_le_self 1 start) f h

/-- Less the long-term loss, a level is the mean of what is left of it under either
condition. -/
theorem sub_longTerm (start : 0 ≤ p) (stop : p ≤ 1) (level h f : ℝ) :
    level - longTerm p h f = Level.mean p (level - f) (level - h) := by
  rw [longTerm_eq start stop, sub_neg_eq_add, ← Level.mean_add start stop, sub_eq_add_neg level f,
    sub_eq_add_neg level h]

end LongTerm

/-! ## Losses and contributions -/

namespace Losses

variable {l : Losses ℝ} {i : Nat} {h f : ℝ}

@[simp] theorem length_total (l : Losses ℝ) : l.total.length = l.perBand.length :=
  List.length_map _

theorem getElem?_total (isHomogeneous : l.homogeneous[i]? = some h)
    (isFavourable : l.favourableTotal[i]? = some f) :
    l.total[i]? = some (longTerm l.favourable h f) := by
  rw [homogeneous, List.getElem?_map, Option.map_eq_some_iff] at isHomogeneous
  rw [favourableTotal, List.getElem?_map, Option.map_eq_some_iff] at isFavourable
  obtain ⟨b, band, rfl⟩ := isHomogeneous
  obtain ⟨b', band', rfl⟩ := isFavourable
  obtain rfl := Option.some.inj (band.symm.trans band')
  rw [total, List.getElem?_map, band]
  rfl

/-- In every band the long-term loss is that of the mean power.  It lies between the losses
under the two conditions, moves towards the favourable one as its share grows, and exceeds
neither by more than its share of the time accounts for.  So a contribution that is not held
up to silence has the mean of the two levels that it would have under either condition. -/
theorem total_mixed (l : Losses ℝ) (start : 0 ≤ l.favourable) (stop : l.favourable ≤ 1) :
    l.total.length = l.perBand.length ∧
    (∀ (i : Nat) (h f : ℝ), l.homogeneous[i]? = some h → l.favourableTotal[i]? = some f →
      ∃ x, l.total[i]? = some x ∧
        (10 : ℝ) ^ (-x / 10)
          = l.favourable * 10 ^ (-f / 10) + (1 - l.favourable) * 10 ^ (-h / 10) ∧
        min h f ≤ x ∧ x ≤ max h f ∧
        (0 < l.favourable → x - f ≤ -10 * Real.logb 10 l.favourable) ∧
        (l.favourable < 1 → x - h ≤ -10 * Real.logb 10 (1 - l.favourable)) ∧
        ∀ q, l.favourable ≤ q → q ≤ 1 → ∃ y, { l with favourable := q }.total[i]? = some y ∧
          (f ≤ h → y ≤ x) ∧ (h ≤ f → x ≤ y)) ∧
    ∀ bands source emission path,
      ((∃ c, contribution bands source emission path l = .ok c) ↔ emission.bands = bands ∧
        l.bands = bands ∧ min emission.levels.length l.perBand.length = bands.size) ∧
      ∀ c, contribution bands source emission path l = .ok c →
        ∀ (i : Nat) (level h f : ℝ), emission.levels[i]? = some level → l.homogeneous[i]? = some h →
          l.favourableTotal[i]? = some f → ∃ heard, c.spectrum.levels[i]? = some heard ∧
            heard = max (Level.mean l.favourable (level - f) (level - h)) Level.silent ∧
            (Level.silent < heard →
              heard = Level.mean l.favourable (level - f) (level - h)) := by
  refine ⟨l.length_total, fun i h f isHomogeneous isFavourable => ?_,
    fun bands source emission path => ⟨?_, ?_⟩⟩
  · refine ⟨_, getElem?_total isHomogeneous isFavourable, power_neg_longTerm start stop,
      le_longTerm (min_le_left h f) (min_le_right h f),
      longTerm_le start stop (le_max_left h f) (le_max_right h f),
      fun positive => longTerm_sub_le_of_pos positive stop h f,
      fun short => longTerm_sub_le_of_lt_one start short h f, fun q more most => ?_⟩
    exact ⟨_, getElem?_total (l := { l with favourable := q }) isHomogeneous isFavourable,
      longTerm_antitone start more most, longTerm_monotone start more most⟩
  · simp only [contribution_eq_ok_iff, Spectrum.after, List.length_zipWith, length_total,
      exists_and_left, exists_eq, and_true]
  · intro c made i level h f isLevel isHomogeneous isFavourable
    obtain ⟨-, -, -, rfl⟩ := contribution_eq_ok_iff.1 made
    refine ⟨max (level - longTerm l.favourable h f) Level.silent, ?_, ?_, fun heard => ?_⟩
    · simp [Spectrum.after, List.getElem?_zipWith, isLevel,
        getElem?_total isHomogeneous isFavourable]
    · rw [sub_longTerm start stop]
    · rw [sub_longTerm start stop] at heard ⊢
      exact max_eq_left ((lt_max_iff.1 heard).resolve_right (lt_irrefl _)).le

end Losses

/-- A path with an edge in the lowest octave and soft ground in the others, with three tenths
of the time favourable: bent rays lose more over the edge and less over the ground. -/
noncomputable def breeze : Losses ℝ :=
  ⟨.octave, ⟨40.0, 1.0, 0, 5.0, 0, 0, 7.0⟩ :: List.replicate 7 ⟨40.0, 1.0, 8.0, 0, 0, 3.0, 0⟩, 0.3⟩

/-- The two conditions cross between the first band and the second. -/
theorem breeze_mixed : (0 ≤ breeze.favourable ∧ breeze.favourable ≤ 1) ∧
    (∃ x, breeze.total[0]? = some x ∧ 46 ≤ x ∧ x ≤ 48) ∧
    (∃ x, breeze.total[1]? = some x ∧ 44 ≤ x ∧ x ≤ 49 ∧ x - 44 ≤ -10 * Real.logb 10 0.3) ∧
    ∃ c : Contribution ℝ, contribution .octave 0 (.uniform .octave 100)
        ⟨.direct, [], 2.0, 2.0, none, ⟨1, 1, [], none⟩⟩ breeze = .ok c ∧
      c.spectrum.levels[1]? = some (Level.mean (0.3 : ℝ) 56 51) := by
  have start : 0 ≤ breeze.favourable := by norm_num [breeze]
  have stop : breeze.favourable ≤ 1 := by norm_num [breeze]
  obtain ⟨-, bands, contributions⟩ := breeze.total_mixed start stop
  have first : breeze.homogeneous[0]? = some 46 ∧ breeze.favourableTotal[0]? = some 48 := by
    norm_num [breeze, Losses.homogeneous, Losses.favourableTotal, BandLoss.homogeneous,
      BandLoss.favourable]
  have second : breeze.homogeneous[1]? = some 49 ∧ breeze.favourableTotal[1]? = some 44 := by
    norm_num [breeze, Losses.homogeneous, Losses.favourableTotal, BandLoss.homogeneous,
      BandLoss.favourable]
  obtain ⟨x, isTotal, -, least, most, -⟩ := bands 0 46 48 first.1 first.2
  obtain ⟨x', isTotal', -, least', most', share, -⟩ := bands 1 49 44 second.1 second.2
  obtain ⟨scored, levels⟩ := contributions .octave 0 (.uniform .octave 100)
    ⟨.direct, [], 2.0, 2.0, none, ⟨1, 1, [], none⟩⟩
  obtain ⟨c, made⟩ := scored.2 ⟨rfl, rfl, by simp [breeze, Spectrum.uniform, BandSet.size]⟩
  obtain ⟨heard, isHeard, value, -⟩ := levels c made 1 100 49 44
    (by simp [Spectrum.uniform, BandSet.size]) second.1 second.2
  rw [show (100 : ℝ) - 44 = 56 by norm_num, show (100 : ℝ) - 49 = 51 by norm_num] at value
  have louder : max (Level.mean (0.3 : ℝ) 56 51) Level.silent = Level.mean 0.3 56 51 :=
    max_eq_left (Level.le_mean (by norm_num) (by norm_num) (by norm_num [Level.silent])
      (by norm_num [Level.silent]))
  refine ⟨⟨start, stop⟩, ⟨x, isTotal, ?_, ?_⟩, ⟨x', isTotal', ?_, ?_, share (by norm_num [breeze])⟩,
    c, made, ?_⟩
  · exact (le_min (by norm_num) (by norm_num)).trans least
  · exact most.trans (max_le (by norm_num) (by norm_num))
  · exact (le_min (by norm_num) (by norm_num)).trans least'
  · exact most'.trans (max_le (by norm_num) (by norm_num))
  · exact isHeard.trans (congrArg some (value.trans louder))

end RoadNoise
