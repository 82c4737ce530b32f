/-
# RoadNoise.Proofs.Losses -- what a path loses

A path whose length is not negative and whose walls reflect can be scored.  It then has
one loss for every band, no term of which is a gain, so that it loses at least what sound
loses by spreading over the length of the path.
-/
import RoadNoise.Proofs.Terms

set_option autoImplicit false

namespace RoadNoise

/-! ## Losses of a path -/

namespace BandLoss

/-- No term is a gain. -/
structure NoGain (b : BandLoss ℝ) : Prop where
  atmospheric : 0 ≤ b.atmospheric
  ground : 0 ≤ b.ground
  edges : 0 ≤ b.edges
  reflection : 0 ≤ b.reflection
  favourableGround : 0 ≤ b.favourableGround
  favourableEdges : 0 ≤ b.favourableEdges

variable {b : BandLoss ℝ}

theorem NoGain.le_homogeneous (noGain : b.NoGain) : b.divergence ≤ b.homogeneous := by
  obtain ⟨atmospheric, ground, edges, reflection, -, -⟩ := noGain
  unfold homogeneous
  linarith

theorem NoGain.le_favourable (noGain : b.NoGain) : b.divergence ≤ b.favourable := by
  obtain ⟨atmospheric, -, -, reflection, ground, edges⟩ := noGain
  unfold favourable
  linarith

end BandLoss

namespace Footing

theorem lossAtHeights_nonneg (f : Footing ℝ) (bands : BandSet) (hs hr : ℝ) :
    ∀ x ∈ f.lossAtHeights bands hs hr, 0 ≤ x := by
  intro x term
  obtain ⟨octave, -, rfl⟩ := List.mem_map.1 term
  exact groundTerm_nonneg _ _ _ _ _

theorem length_lossAtHeights (f : Footing ℝ) (bands : BandSet) (hs hr : ℝ) :
    (f.lossAtHeights bands hs hr).length = bands.size := by
  simp [lossAtHeights, BandSet.octaves]

end Footing

namespace Path

variable {p : Path ℝ}

theorem wallLoss_nonneg (reflecting : ∀ a ∈ p.absorptions, 0 ≤ a ∧ a < 1) : 0 ≤ p.wallLoss := by
  rw [wallLoss, Scalar.sum_eq]
  refine List.sum_nonneg fun x term => ?_
  obtain ⟨a, absorption, rfl⟩ := List.mem_map.1 term
  exact reflectionLoss_nonneg (reflecting a absorption).1 (reflecting a absorption).2

theorem check_eq_ok_iff {u : Unit} :
    p.check = .ok u ↔ 0 ≤ p.length ∧ ∀ a ∈ p.absorptions, 0 ≤ a ∧ a < 1 := by
  simp only [check, check_bind_eq_ok_iff, demand_eq_ok_iff, forM_eq_ok_iff, Rule.admits,
    Scalar.isFinite_eq, Bool.true_and, Bool.and_eq_true, decide_eq_true_eq]

end Path

namespace Calculator

variable {c : Calculator ℝ} {p : Path ℝ}

/-- The losses over a detour per band, none for none. -/
noncomputable def edgeLosses (c : Calculator ℝ) (loss : Detour ℝ → ℝ → ℝ) :
    Option (Detour ℝ) → List ℝ
  | some d => c.wavelengths.map (loss d)
  | none => List.replicate c.bands.size 0

theorem edgeLosses_nonneg (sound : c.Sound) {loss : Detour ℝ → ℝ → ℝ}
    (noGain : ∀ d x, 0 < x → 0 ≤ loss d x) (detour : Option (Detour ℝ)) :
    ∀ x ∈ c.edgeLosses loss detour, 0 ≤ x := by
  intro x term
  cases detour with
  | none => exact (List.eq_of_mem_replicate term).ge
  | some d =>
      obtain ⟨wavelength, band, rfl⟩ := List.mem_map.1 term
      exact noGain d wavelength (sound.positive wavelength band)

theorem length_edgeLosses (sound : c.Sound) (loss : Detour ℝ → ℝ → ℝ)
    (detour : Option (Detour ℝ)) : (c.edgeLosses loss detour).length = c.bands.size := by
  cases detour with
  | none => exact List.length_replicate
  | some d => exact (List.length_map _).trans sound.wavelengths

theorem perBand_eq (c : Calculator ℝ) (p : Path ℝ) : (c.losses p).perBand
    = ((c.air.loss p.length).zip
        (((p.footing.loss c.bands).zip (p.footing.favourableLoss c.bands)).zip
        ((c.edgeLosses Detour.loss p.scoredDetour).zip
          (c.edgeLosses Detour.favourableLoss p.scoredDetour)))).map
      fun (air, (g, gf), e, ef) => ⟨divergence p.length, air, g, e, p.wallLoss, gf, ef⟩ := by
  unfold losses edgeLosses
  cases p.scoredDetour <;> rfl

theorem length_perBand (sound : c.Sound) (p : Path ℝ) :
    (c.losses p).perBand.length = c.bands.size := by
  simp [perBand_eq, AirAbsorption.loss, sound.coefficients, length_edgeLosses sound, Footing.loss,
    Footing.favourableLoss, Footing.length_lossAtHeights]

/-- What a path loses over edges in each band, under homogeneous and under favourable
conditions, is the band's part of the losses over the detour that counts. -/
theorem edges_perBand (sound : c.Sound) (p : Path ℝ) :
    (c.losses p).perBand.map BandLoss.edges = c.edgeLosses Detour.loss p.scoredDetour ∧
      (c.losses p).perBand.map BandLoss.favourableEdges
        = c.edgeLosses Detour.favourableLoss p.scoredDetour := by
  have size (loss : Detour ℝ → ℝ → ℝ) :
      (c.losses p).perBand.length = (c.edgeLosses loss p.scoredDetour).length := by
    rw [length_perBand sound, length_edgeLosses sound]
  constructor
  · refine List.ext_getElem (by rw [List.length_map, size]) fun i _ _ => ?_
    simp [perBand_eq]
  · refine List.ext_getElem (by rw [List.length_map, size]) fun i _ _ => ?_
    simp [perBand_eq]

theorem losses_spec (sound : c.Sound) (length : 0 ≤ p.length)
    (reflecting : ∀ a ∈ p.absorptions, 0 ≤ a ∧ a < 1) :
    (c.losses p).bands = c.bands ∧ (c.losses p).perBand.length = c.bands.size ∧
      ∀ b ∈ (c.losses p).perBand, b.NoGain ∧ b.divergence = divergence p.length := by
  refine ⟨rfl, length_perBand sound p, fun b band => ?_⟩
  rw [perBand_eq] at band
  obtain ⟨⟨air, ⟨g, gf⟩, e, ef⟩, entry, rfl⟩ := List.mem_map.1 band
  obtain ⟨inAir, entry⟩ := List.of_mem_zip entry
  obtain ⟨ground, bent⟩ := List.of_mem_zip entry
  obtain ⟨ground, favourableGround⟩ := List.of_mem_zip ground
  obtain ⟨edge, favourableEdge⟩ := List.of_mem_zip bent
  obtain ⟨coefficient, isCoefficient, rfl⟩ := List.mem_map.1 inAir
  refine ⟨?_, rfl⟩
  exact
    { atmospheric := div_nonneg
        (mul_nonneg (sound.absorbing coefficient isCoefficient) length) (by norm_num)
      ground := p.footing.lossAtHeights_nonneg c.bands _ _ g ground
      edges := edgeLosses_nonneg sound (fun d _ => edgeLoss_nonneg d.delta d.spread)
        p.scoredDetour e edge
      reflection := Path.wallLoss_nonneg reflecting
      favourableGround := p.footing.lossAtHeights_nonneg c.bands _ _ gf favourableGround
      favourableEdges := edgeLosses_nonneg sound
        (fun d _ => edgeLoss_nonneg d.favourableDelta d.spread) p.scoredDetour ef
        favourableEdge }

theorem score_eq_ok_iff {losses : Losses ℝ} : c.score p = .ok losses ↔
    (0 ≤ p.length ∧ ∀ a ∈ p.absorptions, 0 ≤ a ∧ a < 1) ∧ losses = c.losses p := by
  simp only [score, check_bind_eq_ok_iff, Path.check_eq_ok_iff, pure, Except.pure,
    Except.ok.injEq, @eq_comm _ losses]

theorem score_eq (length : 0 ≤ p.length) (reflecting : ∀ a ∈ p.absorptions, 0 ≤ a ∧ a < 1) :
    c.score p = .ok (c.losses p) :=
  score_eq_ok_iff.2 ⟨⟨length, reflecting⟩, rfl⟩

/-- In every band a path loses at least what sound loses by spreading over its length. -/
theorem le_total (sound : c.Sound) (length : 0 ≤ p.length)
    (reflecting : ∀ a ∈ p.absorptions, 0 ≤ a ∧ a < 1) :
    ∀ x ∈ (c.losses p).total, divergence p.length ≤ x := by
  intro x total
  obtain ⟨b, band, rfl⟩ := List.mem_map.1 total
  obtain ⟨-, -, spec⟩ := losses_spec sound length reflecting
  obtain ⟨noGain, spread⟩ := spec b band
  rw [← spread]
  exact le_longTerm noGain.le_homogeneous noGain.le_favourable

end Calculator

end RoadNoise
