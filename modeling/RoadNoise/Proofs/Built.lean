/-
# RoadNoise.Proofs.Built -- settings that pass can be built with

Settings are checked as a whole, and their parts are checked once more where they are
used: by the calculator, by the draft that takes the defaults, and by a runner, which
needs both the check and the calculator.  The two rounds ask the same of every part but
one (`Settings.buildable_of_check`).  Of a table of absorption coefficients the check of
the settings looks at the length alone and the calculator at every entry as well, so
settings with a coefficient below zero pass, and nothing can be computed with them.
-/
import RoadNoise.Proofs.Edits
import RoadNoise.Proofs.Terms
import RoadNoise.Reception.Batch

set_option autoImplicit false

namespace RoadNoise

section Generic

variable {α : Type} [Scalar α]

/-- Every share of a wind rose is checked by itself. -/
theorem Weather.check_eq_ok_iff {w : Weather α} {u : Unit} :
    w.check = .ok u ↔ ∀ p ∈ w.shares, Rule.unitInterval.admits p = true := by
  simp only [Weather.check, forM_eq_ok_iff, demand_eq_ok_iff]
  constructor
  · intro admitted p share
    obtain ⟨i, entry⟩ := List.mem_iff_getElem?.1 share
    exact admitted (p, i) (List.mem_zipIdx_iff_getElem?.2 entry)
  · rintro admitted ⟨p, i⟩ entry
    exact admitted p (List.fst_mem_of_mem_zipIdx entry)

namespace Settings

variable {s : Settings α}

/-! ## The check of the settings -/

/-- What the check asks of each part. -/
@[mk_iff] structure Checked (s : Settings α) : Prop where
  atmosphere : s.atmosphere.check = .ok ()
  tableSize : ∀ table, s.airTable = some table → table.length = s.bands.size
  weather : s.weather.check = .ok ()
  sourceFactor : ∀ g, s.options.sourceFactor = some g → Rule.unitInterval.admits g = true
  ground : Rule.unitInterval.admits s.defaults.ground = true
  wall : Rule.unitInterval.admits s.defaults.wall = true
  elevation : Scalar.isFinite s.defaults.elevation = true
  sourceDistance : Rule.positive.admits s.maxSourceDistance = true
  reflectionDistance : Rule.positive.admits s.options.maxReflectionDistance = true
  threads : s.threads ≠ some 0

theorem check_eq_ok_iff {u : Unit} : s.check = .ok u ↔ s.Checked := by
  rw [checked_iff]
  unfold check
  cases table : s.airTable <;> cases factor : s.options.sourceFactor <;>
    simp only [check_bind_eq_ok_iff, demand_eq_ok_iff, require_eq_ok_iff, bne_iff_ne, beq_iff_eq,
      Option.some.injEq, forall_eq', reduceCtorEq, false_implies, implies_true, true_and]

/-! ## What is built from them -/

/-- The air of the settings: that of the table, if there is one. -/
def air (s : Settings α) : AirAbsorption α :=
  ⟨s.bands, s.airTable.getD (s.bands.exactFrequencies.map s.atmosphere.absorption)⟩

/-- The coefficients of the table, if there is one, are such that air can have. -/
def TableAdmitted (s : Settings α) : Prop :=
  ∀ table, s.airTable = some table → ∀ c ∈ table, Rule.notNegative.admits c = true

/-- Only the entries of the table can keep a calculator from being made. -/
theorem calculator_eq_ok_iff (checked : s.Checked) {c : Calculator α} :
    s.calculator = .ok c ↔ s.TableAdmitted ∧
      c = ⟨s.bands, s.air, s.bands.wavelengths s.atmosphere.celerity, s.weather⟩ := by
  simp only [calculator, bind_eq_ok_iff, Calculator.ofAtmosphere_eq_ok_iff, checked.atmosphere,
    Calculator.withWeather_eq_ok_iff, checked.weather, true_and, exists_eq_left]
  cases given : s.airTable with
  | none => simp [TableAdmitted, Settings.air, given, pure, Except.pure, @eq_comm _ c]
  | some table =>
      have size := checked.tableSize table given
      simp [TableAdmitted, Settings.air, given, Calculator.withTable_eq_ok_iff, size]

/-- The defaults of settings that pass are taken over as they are. -/
theorem draft_eq (checked : s.Checked) :
    s.draft = .ok { Draft.empty with defaults := s.defaults } := by
  have ground : Draft.empty.edit (.defaultGround s.defaults.ground) = .ok (Draft.empty.apply _) :=
    Draft.edit_eq_ok_iff.2 ⟨demand_eq_ok_iff.2 checked.ground, rfl⟩
  have elevation (d : Draft α) :
      d.edit (.defaultElevation s.defaults.elevation) = .ok (d.apply _) :=
    Draft.edit_eq_ok_iff.2 ⟨require_eq_ok_iff.2 checked.elevation, rfl⟩
  have wall (d : Draft α) : d.edit (.defaultWall s.defaults.wall) = .ok (d.apply _) :=
    Draft.edit_eq_ok_iff.2 ⟨demand_eq_ok_iff.2 checked.wall, rfl⟩
  exact bind_eq_ok_iff.2 ⟨_, ground, bind_eq_ok_iff.2 ⟨_, elevation _, wall _⟩⟩

end Settings

theorem Runner.ofScene_eq_ok_iff {s : Settings α} {scene : Scene α} {r : Runner α} :
    Runner.ofScene s (.ok scene) = .ok r ↔
      s.Checked ∧ ∃ c, s.calculator = .ok c ∧ r = ⟨s, scene, c⟩ := by
  rw [Runner.ofScene, check_bind_eq_ok_iff, Settings.check_eq_ok_iff]
  simp only [bind_eq_ok_iff, Except.ok.injEq, exists_eq_left', pure, Except.pure, @eq_comm _ r]

/-- Settings that pass their check give a draft their defaults.  A calculator can be made
from them, and a runner for any scene, exactly when the table they may have holds nothing
that air cannot have: that is all that the check leaves to be found out later. -/
theorem Settings.buildable_of_check {s : Settings α} (passes : s.check = .ok ()) :
    s.draft = .ok { Draft.empty with defaults := s.defaults } ∧
      ((∃ c, s.calculator = .ok c) ↔ s.TableAdmitted) ∧
      ∀ scene, (∃ r, Runner.ofScene s (.ok scene) = .ok r) ↔ s.TableAdmitted := by
  have checked := Settings.check_eq_ok_iff.1 passes
  have calculable : (∃ c, s.calculator = .ok c) ↔ s.TableAdmitted := by
    simp only [calculator_eq_ok_iff checked, exists_and_left, exists_eq, and_true]
  refine ⟨draft_eq checked, calculable, fun scene => ?_⟩
  rw [← calculable]
  constructor
  · rintro ⟨r, made⟩
    obtain ⟨-, c, calculates, -⟩ := Runner.ofScene_eq_ok_iff.1 made
    exact ⟨c, calculates⟩
  · rintro ⟨c, calculates⟩
    exact ⟨_, Runner.ofScene_eq_ok_iff.2 ⟨checked, c, calculates, rfl⟩⟩

end Generic

/-- The calculator of settings is built as calculators are. -/
theorem Settings.built_of_calculator {s : Settings ℝ} {c : Calculator ℝ}
    (calculates : s.calculator = .ok c) : c.Built := by
  obtain ⟨plain, made, calculates⟩ := bind_eq_ok_iff.1 calculates
  obtain ⟨mixed, weathered, calculates⟩ := bind_eq_ok_iff.1 calculates
  have built : mixed.Built := .withWeather (.ofAtmosphere made) weathered
  cases table : s.airTable with
  | none =>
      rw [table] at calculates
      obtain rfl := Except.ok.inj calculates
      exact built
  | some table =>
      rw [table] at calculates
      exact .withTable built calculates

/-! ## Two tables -/

theorem standard_checked : (Settings.standard : Settings ℝ).Checked where
  atmosphere := Atmosphere.check_eq_ok_iff.2 (by
    norm_num [Settings.standard, Atmosphere.standard, Atmosphere.referencePressure])
  tableSize := by simp [Settings.standard]
  weather := Weather.check_eq_ok_iff.2 (by
    simp [Settings.standard, Settings.weather, Weather.shares, Rule.admits])
  sourceFactor := by simp [Settings.standard, PathOptions.standard]
  ground := by simp [Settings.standard, Rule.admits]
  wall := by norm_num [Settings.standard, Rule.admits]
  elevation := rfl
  sourceDistance := by simp [Settings.standard, Rule.admits]
  reflectionDistance := by simp [Settings.standard, PathOptions.standard, Rule.admits]
  threads := by simp [Settings.standard]

/-- The standard settings pass with any table of the right length and any wind rose. -/
theorem standard_checked_with {bands : BandSet} {table : List ℝ} {rose : Option (Vector ℝ 16)}
    (size : table.length = bands.size)
    (shares : ∀ r, rose = some r → ∀ p ∈ r.toList, 0 ≤ p ∧ p ≤ 1) :
    { Settings.standard with
      bands := bands, airTable := some table, windRose := rose }.Checked where
  atmosphere := standard_checked.atmosphere
  tableSize := by
    rintro _ ⟨⟩
    exact size
  weather := Weather.check_eq_ok_iff.2 (by
    cases rose with
    | none => simp [Settings.standard, Settings.weather, Weather.shares, Rule.admits]
    | some r => simpa [Settings.weather, Weather.shares, Rule.admits] using shares r rfl)
  sourceFactor := standard_checked.sourceFactor
  ground := standard_checked.ground
  wall := standard_checked.wall
  elevation := standard_checked.elevation
  sourceDistance := standard_checked.sourceDistance
  reflectionDistance := standard_checked.reflectionDistance
  threads := standard_checked.threads

/-- A table for third octaves beside a wind rose. -/
noncomputable def tabled : Settings ℝ :=
  { Settings.standard with
    bands := .thirdOctave
    airTable := some (List.replicate 18 1)
    windRose := some (Vector.replicate 16 0.25) }

theorem tabled_buildable : tabled.check = .ok () ∧ (∃ c, tabled.calculator = .ok c) ∧
    ∃ r, Runner.ofScene tabled (.ok Draft.empty.finish) = .ok r := by
  have passes : tabled.check = .ok () :=
    Settings.check_eq_ok_iff.2 (standard_checked_with rfl (by norm_num))
  have admitted : tabled.TableAdmitted := by
    norm_num [tabled, Settings.TableAdmitted, Rule.admits]
  obtain ⟨-, calculable, runnable⟩ := Settings.buildable_of_check passes
  exact ⟨passes, calculable.2 admitted, (runnable _).2 admitted⟩

/-- A table by which the air amplifies the lowest octave. -/
noncomputable def amplifying : Settings ℝ :=
  { Settings.standard with airTable := some (-1 :: List.replicate 7 0) }

/-- The settings pass, and no calculator and no runner can be made from them. -/
theorem amplifying_passes : amplifying.check = .ok () ∧ (∀ c, amplifying.calculator ≠ .ok c) ∧
    ∀ r, Runner.ofScene amplifying (.ok Draft.empty.finish) ≠ .ok r := by
  have checked : amplifying.Checked := standard_checked_with rfl (by simp [Settings.standard])
  have unable : ∀ c, amplifying.calculator ≠ .ok c := by
    intro c calculates
    have admitted := ((Settings.calculator_eq_ok_iff checked).1 calculates).1 _ rfl (-1) (by simp)
    norm_num [Rule.admits] at admitted
  refine ⟨Settings.check_eq_ok_iff.2 checked, unable, fun r made => ?_⟩
  obtain ⟨-, c, calculates, -⟩ := Runner.ofScene_eq_ok_iff.1 made
  exact unable c calculates

end RoadNoise
