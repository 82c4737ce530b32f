/-
# RoadNoise.Proofs.Powers -- sounds add by their powers, band by band

The power that some spectra have together in a band is the sum of their powers there
(`Spectrum.bandPower`), so neither their order nor how they are grouped matters.  Levels
have a floor, silence.  It makes a level of no power at all a little louder than it should
be, and it never touches anything else that is added up: what is not below silence by
itself is not below silence with others, and its level gives its power back
(`Level.power_ofPower`).
-/
import RoadNoise.Proofs.Louder

set_option autoImplicit false

namespace RoadNoise

/-! ## Levels -/

namespace Level

theorem power_add (x y : ℝ) : power (x + y) = power x * power y := by
  simp only [power, Scalar.pow_eq, add_div]
  exact Real.rpow_add (by norm_num) _ _

/-- But for the floor, a power is the power of its level. -/
theorem power_logb {w : ℝ} (positive : 0 < w) : power (10 * Real.logb 10 w) = w := by
  rw [power, Scalar.pow_eq, mul_div_cancel_left₀ _ (by norm_num)]
  exact Real.rpow_logb (by norm_num) (by norm_num) positive

theorem power_le_iff {x y : ℝ} : power x ≤ power y ↔ x ≤ y := by
  rw [power, power, Scalar.pow_eq, Scalar.pow_eq, Real.rpow_le_rpow_left_iff (by norm_num)]
  exact div_le_div_iff_of_pos_right (by norm_num)

theorem logb_power (level : ℝ) : Real.logb 10 (power level) = level / 10 :=
  Real.logb_rpow (by norm_num) (by norm_num)

/-- The floor does not touch a power that is not below silence. -/
theorem ofPower_eq {w : ℝ} (heard : power silent ≤ w) : ofPower w = 10 * Real.logb 10 w := by
  have positive : 0 < w := (power_pos _).trans_le heard
  have floor : silent ≤ 10 * Real.logb 10 w := by
    have log := Real.logb_le_logb_of_le (b := 10) (by norm_num) (power_pos silent) heard
    rw [logb_power] at log
    linarith
  simp only [ofPower, positive, Scalar.isFinite_eq, Scalar.log10_eq, and_self, if_true]
  exact max_eq_left floor

/-- A power that is not below silence is the power of its level. -/
theorem power_ofPower {w : ℝ} (heard : power silent ≤ w) : power (ofPower w) = w := by
  rw [ofPower_eq heard, power_logb ((power_pos _).trans_le heard)]

theorem power_sub_logb {k : ℝ} (positive : 0 < k) (level : ℝ) :
    power (level - 10 * Real.logb 10 k) = power level / k := by
  rw [eq_div_iff positive.ne']
  calc power (level - 10 * Real.logb 10 k) * k
    _ = power (level - 10 * Real.logb 10 k) * power (10 * Real.logb 10 k) := by
      rw [power_logb positive]
    _ = power level := by rw [← power_add, sub_add_cancel]

theorem ofPower_power (level : ℝ) : ofPower (power level) = max level silent := by
  simp only [ofPower, power_pos, Scalar.isFinite_eq, Scalar.log10_eq, and_self, if_true,
    logb_power]
  rw [mul_div_cancel₀ level (by norm_num)]

/-- A level gives back its power, or that of silence where it was held up. -/
theorem power_ofPower_eq_max (w : ℝ) : power (ofPower w) = max w (power silent) := by
  rcases le_total (power silent) w with heard | faint
  · rw [power_ofPower heard, max_eq_left heard]
  · have least : ofPower w ≤ silent := by
      simpa [ofPower_power] using ofPower_mono faint
    rw [least.antisymm (silent_le_ofPower w), max_eq_right faint]

end Level

/-! ## Spectra -/

/-- The power of a list of levels in a band, none where the list has no level. -/
noncomputable def levelPower (levels : List ℝ) (i : Nat) : ℝ :=
  (levels[i]?.map Level.power).getD 0

theorem levelPower_nonneg (levels : List ℝ) (i : Nat) : 0 ≤ levelPower levels i := by
  unfold levelPower
  cases levels[i]? with
  | none => exact le_rfl
  | some level => exact (Level.power_pos level).le

theorem levelPower_of_getElem? {levels : List ℝ} {i : Nat} {level : ℝ}
    (band : levels[i]? = some level) : levelPower levels i = Level.power level := by
  rw [levelPower, band]
  rfl

theorem getElem?_addPowers (powers levels : List ℝ) (i : Nat) :
    (addPowers powers levels)[i]? = powers[i]?.map (· + levelPower levels i) := by
  induction powers generalizing levels i with
  | nil => cases levels <;> simp [addPowers]
  | cons p powers ih =>
      cases levels with
      | nil => cases h : (p :: powers)[i]? <;> simp [addPowers, levelPower, h]
      | cons l levels =>
          have split : addPowers (p :: powers) (l :: levels)
              = (p + Level.power l) :: addPowers powers levels := rfl
          rw [split]
          cases i with
          | zero => simp [levelPower]
          | succ i => simpa [levelPower] using ih levels i

namespace Spectrum

variable {bands : BandSet} {spectra : List (Spectrum ℝ)}

/-- The power of some spectra in a band. -/
noncomputable def bandPower (spectra : List (Spectrum ℝ)) (i : Nat) : ℝ :=
  (spectra.map fun s => levelPower s.levels i).sum

theorem bandPower_append (first second : List (Spectrum ℝ)) (i : Nat) :
    bandPower (first ++ second) i = bandPower first i + bandPower second i := by
  simp [bandPower]

theorem bandPower_perm {first second : List (Spectrum ℝ)} (perm : first.Perm second) (i : Nat) :
    bandPower first i = bandPower second i :=
  (perm.map _).sum_eq

theorem getElem?_addedTo (powers : List ℝ) (spectra : List (Spectrum ℝ)) (i : Nat) :
    (addedTo powers spectra)[i]? = powers[i]?.map (· + bandPower spectra i) := by
  induction spectra generalizing powers with
  | nil => simp [addedTo, bandPower]
  | cons s spectra ih =>
      have step : addedTo powers (s :: spectra) = addedTo (addPowers powers s.levels) spectra := rfl
      rw [step, ih, getElem?_addPowers, Option.map_map]
      simp [bandPower, Function.comp_def, add_assoc]

/-- Spectra heard together have the level of their power in every band. -/
theorem levels_together (bands : BandSet) (spectra : List (Spectrum ℝ)) :
    (together bands spectra).levels
      = (List.range bands.size).map fun i => Level.ofPower (bandPower spectra i) := by
  apply List.ext_getElem?
  intro i
  rw [together, List.getElem?_map, getElem?_addedTo, List.getElem?_map, List.getElem?_replicate]
  split_ifs with inRange
  · simp [List.getElem?_range inRange]
  · simp [List.getElem?_eq_none (by simpa using inRange : (List.range bands.size).length ≤ i)]

/-- What is heard together does not depend on the order. -/
theorem together_perm {first second : List (Spectrum ℝ)} (perm : first.Perm second) :
    together bands first = together bands second := by
  have levels : (together bands first).levels = (together bands second).levels := by
    simp only [levels_together, bandPower_perm perm]
  exact congrArg (Spectrum.mk bands) levels

/-- A spectrum as it reaches a receiver: a level in every band, none below silence. -/
structure Arrives (bands : BandSet) (s : Spectrum ℝ) : Prop where
  size : s.levels.length = bands.size
  floor : ∀ level ∈ s.levels, Level.silent ≤ level

/-- What is left of a spectrum after losses arrives, if there is a level for every band. -/
theorem arrives_after {emission : Spectrum ℝ} {losses : Losses ℝ}
    (size : (emission.after losses).length = bands.size) :
    (Spectrum.mk bands (emission.after losses)).Arrives bands := by
  refine ⟨size, fun level isLevel => ?_⟩
  obtain ⟨i, bound, rfl⟩ := List.getElem_of_mem isLevel
  simp [after]

theorem Arrives.exists_level {s : Spectrum ℝ} (arrives : s.Arrives bands) {i : Nat}
    (inRange : i < bands.size) : ∃ level, s.levels[i]? = some level ∧ Level.silent ≤ level := by
  have bound : i < s.levels.length := arrives.size ▸ inRange
  exact ⟨_, List.getElem?_eq_getElem bound, arrives.floor _ (List.getElem_mem bound)⟩

theorem Arrives.le_levelPower {s : Spectrum ℝ} (arrives : s.Arrives bands) {i : Nat}
    (inRange : i < bands.size) : Level.power Level.silent ≤ levelPower s.levels i := by
  obtain ⟨level, band, floor⟩ := arrives.exists_level inRange
  rw [levelPower_of_getElem? band]
  exact Level.power_mono floor

/-- Some spectra that arrive are together not below silence. -/
theorem le_bandPower (some : spectra ≠ []) (arrive : ∀ s ∈ spectra, s.Arrives bands) {i : Nat}
    (inRange : i < bands.size) : Level.power Level.silent ≤ bandPower spectra i := by
  cases spectra with
  | nil => exact absurd rfl some
  | cons s rest =>
      have first := (arrive s List.mem_cons_self).le_levelPower inRange
      have later : 0 ≤ (rest.map fun s => levelPower s.levels i).sum := by
        apply List.sum_nonneg
        intro x power
        obtain ⟨s, -, rfl⟩ := List.mem_map.1 power
        exact levelPower_nonneg s.levels i
      rw [bandPower, List.map_cons, List.sum_cons]
      linarith

/-- Their levels give their powers back. -/
theorem powers_together (some : spectra ≠ []) (arrive : ∀ s ∈ spectra, s.Arrives bands) :
    (together bands spectra).levels.map Level.power
      = (List.range bands.size).map (bandPower spectra) := by
  rw [levels_together, List.map_map]
  refine List.map_congr_left fun i inRange => ?_
  exact Level.power_ofPower (le_bandPower some arrive (List.mem_range.1 inRange))

/-- Two parts, neither of them empty, add by their powers. -/
theorem powers_together_append {first second : List (Spectrum ℝ)} (some : first ≠ [])
    (some' : second ≠ []) (arrive : ∀ s ∈ first, s.Arrives bands)
    (arrive' : ∀ s ∈ second, s.Arrives bands) :
    (together bands (first ++ second)).levels.map Level.power
      = ((together bands first).levels.map Level.power).zipWith (· + ·)
          ((together bands second).levels.map Level.power) := by
  rw [powers_together (List.append_ne_nil_of_left_ne_nil some _)
    (List.forall_mem_append.2 ⟨arrive, arrive'⟩), powers_together some arrive,
    powers_together some' arrive', List.zipWith_map, List.zipWith_self]
  exact List.map_congr_left fun i _ => bandPower_append first second i

end Spectrum

end RoadNoise
