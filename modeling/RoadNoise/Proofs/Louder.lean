/-
# RoadNoise.Proofs.Louder -- more sound is never quieter

Sounds add by their powers, and a power is never below zero.  So what is heard together
grows in every band with each spectrum that is added (`Spectrum.together_mono`), and the
level of all bands together grows with them.
-/
import RoadNoise.Proofs.Received

set_option autoImplicit false

namespace RoadNoise

/-! ## Levels -/

namespace Level

theorem power_pos (level : ℝ) : 0 < power level :=
  Real.rpow_pos_of_pos (by norm_num) _

theorem power_mono {x y : ℝ} (louder : x ≤ y) : power x ≤ power y :=
  Real.rpow_le_rpow_of_exponent_le (by norm_num) (by linarith)

theorem silent_le_ofPower (w : ℝ) : silent ≤ ofPower w := by
  unfold ofPower
  split_ifs
  · exact le_max_right _ _
  · exact le_rfl

theorem ofPower_mono {v w : ℝ} (stronger : v ≤ w) : ofPower v ≤ ofPower w := by
  by_cases heard : 0 < v
  · have log : Real.logb 10 v ≤ Real.logb 10 w :=
      Real.logb_le_logb_of_le (by norm_num) heard stronger
    have heard' : 0 < w := heard.trans_le stronger
    simp only [ofPower, heard, heard', Scalar.isFinite_eq, Scalar.log10_eq, and_self, if_true]
    exact max_le_max_right _ (by linarith)
  · simp only [ofPower, heard, false_and, if_false]
    exact silent_le_ofPower w

theorem total_mono {levels louder : List ℝ} (grow : List.Forall₂ (· ≤ ·) levels louder) :
    total levels ≤ total louder := by
  have powers : List.Forall₂ (· ≤ ·) (levels.map power) (louder.map power) := by
    simpa using grow.imp fun _ _ => power_mono
  refine ofPower_mono ?_
  rw [Scalar.sum_eq, Scalar.sum_eq]
  exact powers.sum_le_sum

end Level

/-! ## Powers -/

variable {powers stronger : List ℝ}

theorem addPowers_mono (grow : List.Forall₂ (· ≤ ·) powers stronger) (levels : List ℝ) :
    List.Forall₂ (· ≤ ·) (addPowers powers levels) (addPowers stronger levels) := by
  induction grow generalizing levels with
  | nil => simp [addPowers]
  | cons first rest ih =>
      cases levels with
      | nil => simpa [addPowers] using ⟨first, rest⟩
      | cons l levels => exact .cons (add_le_add_left first _) (ih levels)

theorem le_addPowers (grow : List.Forall₂ (· ≤ ·) powers stronger) (levels : List ℝ) :
    List.Forall₂ (· ≤ ·) powers (addPowers stronger levels) := by
  induction grow generalizing levels with
  | nil => simp [addPowers]
  | cons first rest ih =>
      cases levels with
      | nil => simpa [addPowers] using ⟨first, rest⟩
      | cons l levels =>
          exact .cons (le_add_of_le_of_nonneg first (Level.power_pos l).le) (ih levels)

namespace Spectrum

theorem addedTo_mono {spectra more : List (Spectrum ℝ)} (part : spectra.Sublist more)
    (grow : List.Forall₂ (· ≤ ·) powers stronger) :
    List.Forall₂ (· ≤ ·) (addedTo powers spectra) (addedTo stronger more) := by
  induction part generalizing powers stronger with
  | slnil => exact grow
  | cons s _ ih => exact ih (le_addPowers grow s.levels)
  | cons_cons s _ ih => exact ih (addPowers_mono grow s.levels)

variable {bands : BandSet} {spectra more : List (Spectrum ℝ)}

/-- With more spectra no band is quieter. -/
theorem together_mono (part : spectra.Sublist more) :
    List.Forall₂ (· ≤ ·) (together bands spectra).levels (together bands more).levels := by
  have grow := addedTo_mono part (List.forall₂_refl (List.replicate bands.size (0 : ℝ)))
  simpa [together] using grow.imp fun _ _ => Level.ofPower_mono

theorem weighted_mono {levels louder : List ℝ} (grow : List.Forall₂ (· ≤ ·) levels louder)
    (weights : List ℝ) : List.Forall₂ (· ≤ ·) (levels.zipWith (· + ·) weights)
      (louder.zipWith (· + ·) weights) := by
  induction grow generalizing weights with
  | nil => simp
  | cons first rest ih =>
      cases weights with
      | nil => simp
      | cons w weights => exact .cons (add_le_add_left first w) (ih weights)

theorem aWeighted_mono {s louder : Spectrum ℝ} (same : s.bands = louder.bands)
    (grow : List.Forall₂ (· ≤ ·) s.levels louder.levels) : s.aWeighted ≤ louder.aWeighted := by
  rw [aWeighted, aWeighted, same]
  exact Level.total_mono (weighted_mono grow _)

end Spectrum

end RoadNoise
