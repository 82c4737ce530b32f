/-
# RoadNoise.Proofs.Terms -- no loss is a gain

Each term of a path's loss is at least zero, whatever the path, for a calculator
whose air absorbs and whose wavelengths are positive; calculators are only built that
way (`Calculator.Built.sound`).  The long-term loss lies above what both of its
conditions lose at least.
-/
import RoadNoise.Proofs.Exact
import RoadNoise.Loss.Score

set_option autoImplicit false

namespace RoadNoise

/-! ## Logarithms -/

theorem log10_nonneg {x : ℝ} (least : 1 ≤ x) : 0 ≤ Real.logb 10 x :=
  Real.logb_nonneg (by norm_num) least

theorem divergence_mono {near far : ℝ} (farther : near ≤ far) :
    divergence near ≤ divergence far := by
  have positive : (0 : ℝ) < max near 0.1 := lt_max_of_lt_right (by norm_num)
  have log : Real.logb 10 (max near 0.1) ≤ Real.logb 10 (max far 0.1) :=
    Real.logb_le_logb_of_le (by norm_num) positive (max_le_max_right _ farther)
  simp only [divergence, Scalar.log10_eq]
  linarith

/-- The mean power of two losses is no more than that of what both lose at least. -/
theorem le_longTerm {p h f level : ℝ} (homogeneous : level ≤ h) (favourable : level ≤ f) :
    level ≤ longTerm p h f := by
  unfold longTerm
  split_ifs with never always
  · exact homogeneous
  · exact favourable
  · rw [not_le] at never always
    have powerF : (10 : ℝ) ^ (-f / 10) ≤ 10 ^ (-level / 10) :=
      Real.rpow_le_rpow_of_exponent_le (by norm_num) (by linarith)
    have powerH : (10 : ℝ) ^ (-h / 10) ≤ 10 ^ (-level / 10) :=
      Real.rpow_le_rpow_of_exponent_le (by norm_num) (by linarith)
    have mean : p * (10 : ℝ) ^ (-f / 10) + (1 - p) * 10 ^ (-h / 10) ≤ 10 ^ (-level / 10) := by
      nlinarith
    have positive : 0 < p * (10 : ℝ) ^ (-f / 10) + (1 - p) * 10 ^ (-h / 10) :=
      add_pos (mul_pos never (by positivity)) (mul_pos (by linarith) (by positivity))
    have log := Real.logb_le_logb_of_le (b := 10) (by norm_num) positive mean
    rw [Real.logb_rpow (by norm_num) (by norm_num)] at log
    simp only [Scalar.log10_eq, Scalar.pow_eq]
    linarith

/-! ## Single terms -/

theorem spreadFactor_pos (wavelength spread : ℝ) : 0 < spreadFactor wavelength spread := by
  unfold spreadFactor
  split_ifs
  · have square : 0 ≤ Scalar.sq (5 * wavelength / spread) := mul_self_nonneg _
    exact div_pos (by linarith) (by linarith)
  · exact zero_lt_one

/-- How much a metre of detour counts in the loss over edges. -/
def edgeWeight {α : Type} [Scalar α] (wavelength spread : α) : α :=
  40 / wavelength * spreadFactor wavelength spread

theorem edgeWeight_pos {wavelength : ℝ} (positive : 0 < wavelength) (spread : ℝ) :
    0 < edgeWeight wavelength spread :=
  mul_pos (by positivity) (spreadFactor_pos _ _)

theorem edgeLoss_of_nonpos {delta : ℝ} (short : delta ≤ 0) (spread wavelength : ℝ) :
    edgeLoss delta spread wavelength = 0 :=
  if_pos short

theorem edgeLoss_of_pos {delta : ℝ} (longer : 0 < delta) (spread wavelength : ℝ) :
    edgeLoss delta spread wavelength
      = min (10 * Real.logb 10 (3 + edgeWeight wavelength spread * delta)) 25 := by
  rw [edgeLoss, if_neg longer.not_ge, Scalar.log10_eq]
  rfl

theorem edgeLoss_le (delta spread wavelength : ℝ) : edgeLoss delta spread wavelength ≤ 25 := by
  obtain short | longer := le_or_gt delta 0
  · rw [edgeLoss_of_nonpos short]
    norm_num
  · rw [edgeLoss_of_pos longer]
    exact min_le_right _ _

/-- However short a detour is, it loses at least this much: the loss jumps where the way over
the edges becomes longer than the direct line. -/
theorem le_edgeLoss {delta : ℝ} (longer : 0 < delta) (spread : ℝ) {wavelength : ℝ}
    (positive : 0 < wavelength) : 10 * Real.logb 10 3 ≤ edgeLoss delta spread wavelength := by
  have excess : 0 < edgeWeight wavelength spread * delta :=
    mul_pos (edgeWeight_pos positive spread) longer
  have log : Real.logb 10 3 ≤ Real.logb 10 (3 + edgeWeight wavelength spread * delta) :=
    Real.logb_le_logb_of_le (by norm_num) (by norm_num) (by linarith)
  have least : Real.logb 10 3 ≤ 1 := by
    rw [Real.logb_le_iff_le_rpow (by norm_num) (by norm_num)]
    norm_num
  rw [edgeLoss_of_pos longer]
  exact le_min (by linarith) (by linarith)

theorem edgeLoss_pos {delta : ℝ} (longer : 0 < delta) (spread : ℝ) {wavelength : ℝ}
    (positive : 0 < wavelength) : 0 < edgeLoss delta spread wavelength := by
  have least : 0 < Real.logb 10 3 := Real.logb_pos (by norm_num) (by norm_num)
  linarith [le_edgeLoss longer spread positive]

theorem edgeLoss_nonneg (delta spread : ℝ) {wavelength : ℝ} (positive : 0 < wavelength) :
    0 ≤ edgeLoss delta spread wavelength := by
  obtain short | longer := le_or_gt delta 0
  · exact (edgeLoss_of_nonpos short spread wavelength).ge
  · exact (edgeLoss_pos longer spread positive).le

/-- The farther the way over edges and the more it counts, the greater the loss. -/
theorem edgeLoss_le_edgeLoss {delta delta' spread spread' wavelength wavelength' : ℝ}
    (positive : 0 < wavelength) (positive' : 0 < wavelength') (farther : delta ≤ delta')
    (heavier : edgeWeight wavelength spread ≤ edgeWeight wavelength' spread') :
    edgeLoss delta spread wavelength ≤ edgeLoss delta' spread' wavelength' := by
  obtain short | longer := le_or_gt delta 0
  · rw [edgeLoss_of_nonpos short]
    exact edgeLoss_nonneg delta' spread' positive'
  · have weight := edgeWeight_pos positive spread
    have excess : edgeWeight wavelength spread * delta ≤ edgeWeight wavelength' spread' * delta' :=
      mul_le_mul heavier farther longer.le (weight.le.trans heavier)
    have log : Real.logb 10 (3 + edgeWeight wavelength spread * delta)
        ≤ Real.logb 10 (3 + edgeWeight wavelength' spread' * delta') :=
      Real.logb_le_logb_of_le (by norm_num) (by positivity) (by linarith)
    rw [edgeLoss_of_pos longer, edgeLoss_of_pos (longer.trans_le farther)]
    exact min_le_min_right _ (by linarith)

/-- The farther the way over edges, the greater the loss. -/
theorem edgeLoss_mono {delta delta' : ℝ} (farther : delta ≤ delta') (spread : ℝ) {wavelength : ℝ}
    (positive : 0 < wavelength) :
    edgeLoss delta spread wavelength ≤ edgeLoss delta' spread wavelength :=
  edgeLoss_le_edgeLoss positive positive farther le_rfl

theorem groundTerm_nonneg (octave : Fin 8) (factors : ℝ × ℝ × ℝ) (hs hr dp : ℝ) :
    0 ≤ groundTerm octave factors hs hr dp :=
  le_max_right _ _

theorem reflectionLoss_nonneg {a : ℝ} (start : 0 ≤ a) (stop : a < 1) : 0 ≤ reflectionLoss a := by
  have ratio : 1 ≤ 1 / (1 - a) := by
    rw [le_div_iff₀ (by linarith)]
    linarith
  have log := log10_nonneg ratio
  simp only [reflectionLoss, Scalar.log10_eq]
  linarith

/-! ## Air -/

namespace Atmosphere

theorem check_eq_ok_iff {a : Atmosphere ℝ} {u : Unit} : a.check = .ok u ↔
    -273.15 < a.temperature ∧ (0 ≤ a.humidity ∧ a.humidity ≤ 100) ∧ 0 < a.pressure := by
  simp only [check, bind_eq_ok_iff, demand_eq_ok_iff, Rule.admits, Scalar.isFinite_eq,
    Bool.true_and, decide_eq_true_eq, Scalar.within_iff, exists_const]

variable {a : Atmosphere ℝ}

theorem celerity_pos (warm : -273.15 < a.temperature) : 0 < a.celerity := by
  have kelvins : 0 < a.temperature + 273.15 := by linarith
  have reference : (0 : ℝ) < referenceTemperature := by norm_num [referenceTemperature]
  simp only [celerity, Scalar.sqrt_eq]
  exact mul_pos (by norm_num) (Real.sqrt_pos.2 (div_pos kelvins reference))

theorem vapour_nonneg (humid : 0 ≤ a.humidity) (dense : 0 < a.pressure) : 0 ≤ a.vapour := by
  have reference : (0 : ℝ) < referencePressure := by norm_num [referencePressure]
  simp only [vapour, Scalar.pow_eq]
  positivity

theorem oxygenRelaxation_pos (humid : 0 ≤ a.humidity) (dense : 0 < a.pressure) :
    0 < a.oxygenRelaxation := by
  have reference : (0 : ℝ) < referencePressure := by norm_num [referencePressure]
  have vapour := vapour_nonneg humid dense
  simp only [oxygenRelaxation]
  positivity

theorem nitrogenRelaxation_pos (warm : -273.15 < a.temperature) (humid : 0 ≤ a.humidity)
    (dense : 0 < a.pressure) : 0 < a.nitrogenRelaxation := by
  have reference : (0 : ℝ) < referencePressure := by norm_num [referencePressure]
  have kelvins : 0 < (a.temperature + 273.15) / referenceTemperature :=
    div_pos (by linarith) (by norm_num [referenceTemperature])
  have vapour := vapour_nonneg humid dense
  simp only [nitrogenRelaxation, Scalar.pow_eq, Scalar.exp_eq]
  positivity

theorem absorption_nonneg (warm : -273.15 < a.temperature) (humid : 0 ≤ a.humidity)
    (dense : 0 < a.pressure) (frequency : ℝ) : 0 ≤ a.absorption frequency := by
  have reference : (0 : ℝ) < referencePressure := by norm_num [referencePressure]
  have kelvins : 0 < (a.temperature + 273.15) / referenceTemperature :=
    div_pos (by linarith) (by norm_num [referenceTemperature])
  have oxygen := oxygenRelaxation_pos humid dense
  have nitrogen := nitrogenRelaxation_pos warm humid dense
  have square : 0 ≤ frequency * frequency := mul_self_nonneg frequency
  simp only [absorption, Scalar.pow_eq, Scalar.exp_eq, Scalar.sqrt_eq]
  generalize frequency * frequency = f2 at *
  positivity

end Atmosphere

/-! ## Calculators -/

section Generic

variable {α : Type} [Scalar α]

namespace AirAbsorption

theorem ofAtmosphere_eq_ok_iff {a : Atmosphere α} {bands : BandSet} {air : AirAbsorption α} :
    ofAtmosphere a bands = .ok air ↔
      a.check = .ok () ∧ air = ⟨bands, bands.exactFrequencies.map a.absorption⟩ := by
  simp only [ofAtmosphere, check_bind_eq_ok_iff, pure, Except.pure, Except.ok.injEq,
    @eq_comm _ _ air]

theorem ofTable_eq_ok_iff {bands : BandSet} {table : List α} {air : AirAbsorption α} :
    ofTable bands table = .ok air ↔
      table.length = bands.size ∧ (∀ c ∈ table, Rule.notNegative.admits c = true) ∧
        air = ⟨bands, table⟩ := by
  simp only [ofTable, check_bind_eq_ok_iff, require_eq_ok_iff, forM_eq_ok_iff, demand_eq_ok_iff,
    beq_iff_eq, pure, Except.pure, Except.ok.injEq, @eq_comm _ _ air]

end AirAbsorption

namespace Calculator

variable {c next : Calculator α}

theorem ofAtmosphere_eq_ok_iff {bands : BandSet} {a : Atmosphere α} :
    ofAtmosphere bands a = .ok c ↔ a.check = .ok () ∧
      c = ⟨bands, ⟨bands, bands.exactFrequencies.map a.absorption⟩,
        bands.wavelengths a.celerity, .homogeneous⟩ := by
  simp only [ofAtmosphere, bind_eq_ok_iff, AirAbsorption.ofAtmosphere_eq_ok_iff, and_assoc,
    exists_and_left, exists_eq_left, pure, Except.pure, Except.ok.injEq, @eq_comm _ _ c]

theorem withWeather_eq_ok_iff {weather : Weather α} :
    c.withWeather weather = .ok next ↔
      weather.check = .ok () ∧ next = { c with weather := weather } := by
  simp only [withWeather, check_bind_eq_ok_iff, pure, Except.pure, Except.ok.injEq,
    @eq_comm _ _ next]

theorem withTable_eq_ok_iff {table : List α} :
    c.withTable table = .ok next ↔
      (table.length = c.bands.size ∧ ∀ x ∈ table, Rule.notNegative.admits x = true) ∧
        next = { c with air := ⟨c.bands, table⟩ } := by
  simp only [withTable, bind_eq_ok_iff, AirAbsorption.ofTable_eq_ok_iff, and_assoc,
    exists_and_left, exists_eq_left, pure, Except.pure, Except.ok.injEq, @eq_comm _ _ next]

end Calculator

end Generic

@[simp] theorem BandSet.length_exactFrequencies {α : Type} [Scalar α] (bands : BandSet) :
    (bands.exactFrequencies : List α).length = bands.size := by
  simp [exactFrequencies]

theorem exactFrequencies_pos (bands : BandSet) :
    ∀ f ∈ (bands.exactFrequencies : List ℝ), 0 < f := by
  intro f frequency
  obtain ⟨i, -, rfl⟩ := List.mem_map.1 frequency
  simp only [Scalar.pow_eq]
  positivity

namespace Calculator

/-- Calculators as they are built: for an atmosphere, then for some weather or with
absorption from a table. -/
inductive Built : Calculator ℝ → Prop
  | ofAtmosphere {bands : BandSet} {a : Atmosphere ℝ} {c : Calculator ℝ}
      (made : Calculator.ofAtmosphere bands a = .ok c) : Built c
  | withWeather {c next : Calculator ℝ} {weather : Weather ℝ} (built : Built c)
      (made : c.withWeather weather = .ok next) : Built next
  | withTable {c next : Calculator ℝ} {table : List ℝ} (built : Built c)
      (made : c.withTable table = .ok next) : Built next

/-- A calculator has a coefficient and a wavelength for each band, and the air absorbs. -/
structure Sound (c : Calculator ℝ) : Prop where
  coefficients : c.air.coefficients.length = c.bands.size
  absorbing : ∀ x ∈ c.air.coefficients, 0 ≤ x
  wavelengths : c.wavelengths.length = c.bands.size
  positive : ∀ x ∈ c.wavelengths, 0 < x

theorem Built.sound {c : Calculator ℝ} (built : c.Built) : c.Sound := by
  induction built with
  | ofAtmosphere made =>
      rename_i bands a c
      obtain ⟨checked, rfl⟩ := ofAtmosphere_eq_ok_iff.1 made
      obtain ⟨warm, ⟨humid, -⟩, dense⟩ := Atmosphere.check_eq_ok_iff.1 checked
      refine ⟨by simp, ?_, by simp [BandSet.wavelengths], ?_⟩
      · intro x coefficient
        obtain ⟨f, -, rfl⟩ := List.mem_map.1 coefficient
        exact Atmosphere.absorption_nonneg warm humid dense f
      · intro x wavelength
        obtain ⟨f, frequency, rfl⟩ := List.mem_map.1 wavelength
        exact div_pos (Atmosphere.celerity_pos warm) (exactFrequencies_pos bands f frequency)
  | withWeather built made sound =>
      obtain ⟨-, rfl⟩ := withWeather_eq_ok_iff.1 made
      exact { sound with }
  | withTable built made sound =>
      obtain ⟨⟨size, admitted⟩, rfl⟩ := withTable_eq_ok_iff.1 made
      exact
        { sound with
          coefficients := size
          absorbing := fun c coefficient => by simpa [Rule.admits] using admitted c coefficient }

/-- There is a calculator for either set of bands, in the standard atmosphere. -/
theorem exists_built (bands : BandSet) : ∃ c : Calculator ℝ, c.Built ∧ c.bands = bands := by
  have checked : (Atmosphere.standard : Atmosphere ℝ).check = .ok () := by
    rw [Atmosphere.check_eq_ok_iff]
    norm_num [Atmosphere.standard, Atmosphere.referencePressure]
  exact ⟨_, .ofAtmosphere (ofAtmosphere_eq_ok_iff.2 ⟨checked, rfl⟩), rfl⟩

end Calculator

end RoadNoise
