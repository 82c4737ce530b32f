/-
# RoadNoise.Proofs.Bending -- what bends more loses more

The loss over edges grows with the detour, with the distance between the first and the
last edge, and as the waves get shorter.  The last is not plain from the formula, where the
wavelength stands twice: what a metre of detour counts is forty over the wavelength, times a
factor for edges that lie apart.  Taken to pieces (`spreadFactor_of_apart`) the factor has
the wavelength below the fraction bar alone, so that it does not work against the forty over
the wavelength (`edgeWeight_le_edgeWeight`).

A calculator has a shorter wavelength for each higher band, whatever speed of sound it was
built with (`Calculator.Built.exists_celerity`), so the losses of a path over its edges rise
from band to band, under either condition (`Calculator.edgeLosses_rising`).
-/
import RoadNoise.Proofs.Losses

set_option autoImplicit false

namespace RoadNoise

/-! ## How much a metre of detour counts -/

/-- Edges that lie apart count up to three times what a single one does; how much less
depends on the wavelengths between them. -/
theorem spreadFactor_of_apart {spread : ℝ} (apart : 0.3 < spread) (wavelength : ℝ) :
    spreadFactor wavelength spread = 1 + 2 / 3 / (1 / 3 + (5 * wavelength / spread) ^ 2) := by
  have below : 1 / 3 + (5 * wavelength / spread) ^ 2 ≠ 0 := by positivity
  calc
    spreadFactor wavelength spread
        = (1 + (5 * wavelength / spread) ^ 2) / (1 / 3 + (5 * wavelength / spread) ^ 2) := by
          rw [spreadFactor, if_pos apart, pow_two]
          rfl
    _ = (1 / 3 + (5 * wavelength / spread) ^ 2 + 2 / 3)
          / (1 / 3 + (5 * wavelength / spread) ^ 2) := by
          congr 1
          ring
    _ = 1 + 2 / 3 / (1 / 3 + (5 * wavelength / spread) ^ 2) := by
          rw [add_div, div_self below]

theorem spreadFactor_of_close {spread : ℝ} (close : spread ≤ 0.3) (wavelength : ℝ) :
    spreadFactor wavelength spread = 1 :=
  if_neg close.not_gt

theorem one_le_spreadFactor (wavelength spread : ℝ) : 1 ≤ spreadFactor wavelength spread := by
  obtain close | apart := le_or_gt spread 0.3
  · exact (spreadFactor_of_close close wavelength).ge
  · rw [spreadFactor_of_apart apart]
    exact le_add_of_nonneg_right (by positivity)

/-- Edges farther apart, in wavelengths, count more, also where they no longer count as
one. -/
theorem spreadFactor_le_spreadFactor {spread spread' wavelength wavelength' : ℝ}
    (apart : spread ≤ spread') (positive' : 0 < wavelength') (shorter : wavelength' ≤ wavelength) :
    spreadFactor wavelength spread ≤ spreadFactor wavelength' spread' := by
  obtain close | several := le_or_gt spread 0.3
  · rw [spreadFactor_of_close close]
    exact one_le_spreadFactor wavelength' spread'
  · have start : 0 < spread := lt_trans (by norm_num) several
    have start' : 0 < spread' := start.trans_le apart
    have positive : 0 < wavelength := positive'.trans_le shorter
    rw [spreadFactor_of_apart several, spreadFactor_of_apart (several.trans_le apart)]
    gcongr

theorem edgeWeight_le_edgeWeight {spread spread' wavelength wavelength' : ℝ}
    (apart : spread ≤ spread') (positive' : 0 < wavelength') (shorter : wavelength' ≤ wavelength) :
    edgeWeight wavelength spread ≤ edgeWeight wavelength' spread' := by
  have count : 40 / wavelength ≤ 40 / wavelength' := by gcongr
  exact mul_le_mul count (spreadFactor_le_spreadFactor apart positive' shorter)
    (spreadFactor_pos _ _).le (by positivity)

/-- The loss grows with the detour, with the distance between the edges, and as the waves
get shorter. -/
theorem edgeLoss_graded {delta delta' spread spread' wavelength wavelength' : ℝ}
    (farther : delta ≤ delta') (apart : spread ≤ spread') (positive' : 0 < wavelength')
    (shorter : wavelength' ≤ wavelength) :
    edgeLoss delta spread wavelength ≤ edgeLoss delta' spread' wavelength' :=
  edgeLoss_le_edgeLoss (positive'.trans_le shorter) positive' farther
    (edgeWeight_le_edgeWeight apart positive' shorter)

/-! ## From band to band -/

namespace BandSet

theorem tenths_lt_tenths (bands : BandSet) {i j : Nat} (below : i < j) :
    bands.tenths i < bands.tenths j := by
  cases bands <;> simp only [tenths] <;> omega

theorem exactFrequencies_rising (bands : BandSet) :
    (bands.exactFrequencies : List ℝ).Pairwise (· < ·) := by
  rw [exactFrequencies, List.pairwise_map]
  refine List.pairwise_lt_range.imp fun {i j} below => ?_
  have tenths : (bands.tenths i : ℝ) < bands.tenths j := by
    exact_mod_cast bands.tenths_lt_tenths below
  have power : (10 : ℝ) ^ ((bands.tenths i : ℝ) / 10) < 10 ^ ((bands.tenths j : ℝ) / 10) :=
    Real.rpow_lt_rpow_of_exponent_lt (by norm_num) (by linarith)
  simp only [Scalar.pow_eq, Scalar.ofInt_eq]
  linarith

end BandSet

namespace Calculator

variable {c : Calculator ℝ}

/-- Neither the weather nor a table of absorption changes the wavelengths. -/
theorem Built.exists_celerity (built : c.Built) :
    ∃ celerity, 0 < celerity ∧ c.wavelengths = c.bands.wavelengths celerity := by
  induction built with
  | ofAtmosphere made =>
      rename_i bands a c
      obtain ⟨checked, rfl⟩ := ofAtmosphere_eq_ok_iff.1 made
      exact ⟨a.celerity, Atmosphere.celerity_pos (Atmosphere.check_eq_ok_iff.1 checked).1, rfl⟩
  | withWeather built made same =>
      obtain ⟨-, rfl⟩ := withWeather_eq_ok_iff.1 made
      exact same
  | withTable built made same =>
      obtain ⟨-, rfl⟩ := withTable_eq_ok_iff.1 made
      exact same

/-- The losses over a detour per band are those at the frequencies of the bands. -/
theorem edgeLosses_some {celerity : ℝ} (same : c.wavelengths = c.bands.wavelengths celerity)
    (loss : Detour ℝ → ℝ → ℝ) (d : Detour ℝ) : c.edgeLosses loss (some d)
      = (c.bands.exactFrequencies : List ℝ).map fun f => loss d (celerity / f) := by
  rw [edgeLosses, same, BandSet.wavelengths, List.map_map]
  rfl

/-- A loss that is no less for shorter waves rises from band to band. -/
theorem edgeLosses_rising (built : c.Built) {loss : Detour ℝ → ℝ → ℝ}
    (graded : ∀ d wavelength wavelength', 0 < wavelength' → wavelength' ≤ wavelength →
      loss d wavelength ≤ loss d wavelength') (detour : Option (Detour ℝ)) :
    (c.edgeLosses loss detour).Pairwise (· ≤ ·) := by
  obtain ⟨celerity, positive, same⟩ := built.exists_celerity
  cases detour with
  | none => exact List.pairwise_replicate_of_refl
  | some d =>
      rw [edgeLosses_some same, List.pairwise_map]
      refine c.bands.exactFrequencies_rising.imp_of_mem fun {low high} isLow isHigh rises => ?_
      have lowest := exactFrequencies_pos c.bands low isLow
      have highest := exactFrequencies_pos c.bands high isHigh
      exact graded d _ _ (div_pos positive highest)
        (div_le_div_of_nonneg_left positive.le lowest rises.le)

end Calculator

/-! ## The loss over edges -/

/-- Nothing is lost where the way over the edges is no detour.  A detour loses at least ten
times the logarithm of three and no more than the cap.  The loss falls neither with the
detour, nor with the distance between the edges, nor as the waves get shorter.  A path that
can be scored loses over edges what its detour loses at the frequency of each band, under
either condition, so that it loses no less in a band than in one of a lower frequency. -/
theorem bending_graded :
    (∀ delta spread wavelength : ℝ, 0 < wavelength →
      (delta ≤ 0 → edgeLoss delta spread wavelength = 0) ∧
      (0 < delta → 10 * Real.logb 10 3 ≤ edgeLoss delta spread wavelength ∧
        edgeLoss delta spread wavelength ≤ 25)) ∧
    (∀ delta delta' spread spread' wavelength wavelength' : ℝ, delta ≤ delta' →
      spread ≤ spread' → 0 < wavelength' → wavelength' ≤ wavelength →
      edgeLoss delta spread wavelength ≤ edgeLoss delta' spread' wavelength') ∧
    ∀ c : Calculator ℝ, c.Built → (c.bands.exactFrequencies : List ℝ).Pairwise (· < ·) ∧
      ∃ celerity : ℝ, 0 < celerity ∧ ∀ p : Path ℝ,
        ((∃ losses, c.score p = .ok losses) ↔
          0 ≤ p.length ∧ ∀ a ∈ p.absorptions, 0 ≤ a ∧ a < 1) ∧
        ∀ losses, c.score p = .ok losses →
          (∀ d, p.scoredDetour = some d →
            losses.perBand.map BandLoss.edges = (c.bands.exactFrequencies : List ℝ).map
              (fun f => edgeLoss d.delta d.spread (celerity / f)) ∧
            losses.perBand.map BandLoss.favourableEdges = (c.bands.exactFrequencies : List ℝ).map
              fun f => edgeLoss d.favourableDelta d.spread (celerity / f)) ∧
          losses.perBand.length = c.bands.size ∧
          (losses.perBand.map BandLoss.edges).Pairwise (· ≤ ·) ∧
          (losses.perBand.map BandLoss.favourableEdges).Pairwise (· ≤ ·) := by
  refine ⟨fun delta spread wavelength positive => ⟨fun short => ?_, fun longer => ?_⟩,
    fun _ _ _ _ _ _ farther apart positive' shorter =>
      edgeLoss_graded farther apart positive' shorter, fun c built => ?_⟩
  · exact edgeLoss_of_nonpos short spread wavelength
  · exact ⟨le_edgeLoss longer spread positive, edgeLoss_le delta spread wavelength⟩
  · obtain ⟨celerity, positive, same⟩ := built.exists_celerity
    refine ⟨c.bands.exactFrequencies_rising, celerity, positive, fun p => ⟨?_, ?_⟩⟩
    · simp only [Calculator.score_eq_ok_iff, exists_and_left, exists_eq, and_true]
    · intro losses scored
      obtain ⟨-, rfl⟩ := Calculator.score_eq_ok_iff.1 scored
      obtain ⟨edges, favourableEdges⟩ := Calculator.edges_perBand built.sound p
      rw [edges, favourableEdges]
      refine ⟨fun d scoredDetour => ?_, Calculator.length_perBand built.sound p, ?_, ?_⟩
      · rw [scoredDetour]
        exact ⟨Calculator.edgeLosses_some same Detour.loss d,
          Calculator.edgeLosses_some same Detour.favourableLoss d⟩
      · exact Calculator.edgeLosses_rising built
          (fun d _ _ => edgeLoss_graded (le_refl d.delta) (le_refl d.spread)) p.scoredDetour
      · exact Calculator.edgeLosses_rising built
          (fun d _ _ => edgeLoss_graded (le_refl d.favourableDelta) (le_refl d.spread))
          p.scoredDetour

/-- A path to the left of a building ten metres long, two metres longer than the direct
line. -/
noncomputable def leftWay : Path ℝ where
  kind := .left
  events := [.source ⟨0, 0, 1⟩, .diffraction ⟨4.0, 3.0, 1⟩, .diffraction ⟨14.0, 3.0, 1⟩,
    .receiver ⟨18.0, 0, 1⟩]
  length := 20.0
  directLength := 18.0
  detour := some (.level 2.0 10.0)
  footing := ⟨1, 1, [], none⟩

/-- Around the building each of the eighteen bands loses something, and no less than the band
below it. -/
theorem leftWay_graded : ∃ (c : Calculator ℝ) (losses : Losses ℝ), c.Built ∧
    c.score leftWay = .ok losses ∧ losses.perBand.length = 18 ∧
    (∀ x ∈ losses.perBand.map BandLoss.edges, 10 * Real.logb 10 3 ≤ x) ∧
    (losses.perBand.map BandLoss.edges).Pairwise (· ≤ ·) := by
  obtain ⟨bounds, -, calculators⟩ := bending_graded
  obtain ⟨c, built, bands⟩ := Calculator.exists_built .thirdOctave
  obtain ⟨-, celerity, positive, paths⟩ := calculators c built
  obtain ⟨scorable, graded⟩ := paths leftWay
  obtain ⟨losses, scored⟩ := scorable.2
    ⟨by norm_num [leftWay], by simp [leftWay, Path.absorptions, PathEvent.absorption?]⟩
  obtain ⟨terms, size, rising, -⟩ := graded losses scored
  refine ⟨c, losses, built, scored, by rw [size, bands]; rfl, ?_, rising⟩
  rw [(terms (.level 2.0 10.0) rfl).1, List.forall_mem_map]
  intro f frequency
  have wavelength := div_pos positive (exactFrequencies_pos c.bands f frequency)
  exact ((bounds 2.0 10.0 _ wavelength).2 (by norm_num)).1

end RoadNoise
