/-
# RoadNoise.Proofs.Directions -- traffic in both directions

Traffic in both directions has the mean power of one vehicle along the road and one against
it.  As the mean is taken before the number of vehicles is added, and before any floor but
that of the single vehicle, it is another thing to emit half of the traffic along and half of
it against the road.  The two agree as long as the mean of what is heard is what is heard of
the mean (`heardPower_twoWay`), and a floor could come between them.  It does not: a vehicle
with tyres is nowhere below silence to begin with, and one whose tyres make no noise of
their own is the same uphill and downhill.
-/
import RoadNoise.Proofs.Emitted

set_option autoImplicit false

namespace RoadNoise

variable {category : VehicleCategory} {flow : VehicleFlow ℝ} {road : RoadState ℝ}
  {surface : RoadSurface ℝ}

/-! ## One vehicle -/

/-- Tyres are nowhere below silence. -/
theorem silent_le_unitLevel {law : SpeedLaw ℝ} (rolls : category.rolling? = some law)
    (speed : ℝ) (road : RoadState ℝ) (surface : RoadSurface ℝ) (slope : ℝ) (octave : Fin 8) :
    Level.silent ≤ unitLevel category speed road surface slope octave := by
  rw [unitLevel, rolls]
  exact Level.silent_le_ofPower _

/-- Vehicles whose tyres do not count do not feel a slope. -/
theorem unitLevel_of_no_tyres (rolls : (category.rolling? : Option (SpeedLaw ℝ)) = none)
    (speed : ℝ) (road : RoadState ℝ) (surface : RoadSurface ℝ) (slope slope' : ℝ)
    (octave : Fin 8) : unitLevel category speed road surface slope octave
      = unitLevel category speed road surface slope' octave := by
  cases category <;> first | rfl | simp [VehicleCategory.rolling?] at rolls

/-- The mean of two powers is held up like either of them, if none is below silence or if they
are the same. -/
theorem max_mean {x y p : ℝ} (alike : p ≤ x ∧ p ≤ y ∨ x = y) :
    max ((x + y) / 2) p = (max x p + max y p) / 2 := by
  obtain ⟨heard, heard'⟩ | rfl := alike
  · rw [max_eq_left heard, max_eq_left heard', max_eq_left (by linarith)]
  · rw [add_self_div_two, add_self_div_two]

/-- What is heard of both directions is the mean of what is heard of either. -/
theorem heardPower_twoWay (flow : VehicleFlow ℝ) (road : RoadState ℝ)
    (surface : RoadSurface ℝ) (octave : Fin 8) :
    heardPower flow { road with way := .twoWay } surface octave
      = (heardPower flow { road with way := .direct } surface octave
        + heardPower flow { road with way := .inverse } surface octave) / 2 := by
  let level (slope : ℝ) : ℝ := unitLevel flow.category flow.speed road surface slope octave
  have alike : Level.power Level.silent ≤ Level.power (level road.slope) ∧
        Level.power Level.silent ≤ Level.power (level (-road.slope)) ∨
      Level.power (level road.slope) = Level.power (level (-road.slope)) := by
    cases rolls : (flow.category.rolling? : Option (SpeedLaw ℝ)) with
    | some law =>
        exact .inl ⟨Level.power_mono (silent_le_unitLevel rolls _ _ _ _ _),
          Level.power_mono (silent_le_unitLevel rolls _ _ _ _ _)⟩
    | none => exact .inr (congrArg Level.power (unitLevel_of_no_tyres rolls _ _ _ _ _ _))
  have mean : unitPower flow { road with way := .twoWay } surface octave
      = (Level.power (level road.slope) + Level.power (level (-road.slope))) / 2 := by
    have half (x y : ℝ) : 0.5 * (x + y) = (x + y) / 2 := by ring
    exact half _ _
  rw [heardPower, mean, max_mean alike]
  rfl

/-! ## Flows -/

namespace EmissionModel

variable {m : EmissionModel ℝ}

/-- Traffic in both directions has the power of half of it in each. -/
theorem flowPower_twoWay (m : EmissionModel ℝ) (flow : VehicleFlow ℝ) (road : RoadState ℝ)
    (surface : RoadSurface ℝ) (i : Nat) :
    m.flowPower flow { road with way := .twoWay } surface i
      = m.flowPower { flow with count := flow.count / 2 } { road with way := .direct } surface i
        + m.flowPower { flow with count := flow.count / 2 } { road with way := .inverse }
            surface i := by
  have half : m.density { flow with count := flow.count / 2 } = m.density flow / 2 := by
    unfold density
    split
    · rfl
    · exact div_right_comm _ _ _
  have same (road : RoadState ℝ) : heardPower { flow with count := flow.count / 2 } road surface
      = heardPower flow road surface := rfl
  simp only [flowPower, heardPower_twoWay, half, same]
  ring

/-- Uphill and downhill change their places. -/
theorem emission_twoWay_neg (m : EmissionModel ℝ) (flow : VehicleFlow ℝ) (road : RoadState ℝ)
    (surface : RoadSurface ℝ) :
    m.emission flow { road with way := .twoWay, slope := -road.slope } surface
      = m.emission flow { road with way := .twoWay } surface := by
  have swapped : unitPower flow { road with way := .twoWay, slope := -road.slope } surface
      = unitPower flow { road with way := .twoWay } surface := by
    funext octave
    simp only [unitPower]
    rw [neg_neg, add_comm]
    rfl
  simp only [emission, flowPower, heardPower, swapped]

/-- The emission of traffic in both directions is that of half of it along the road and half
of it against the road, heard together: in powers, and in every band where neither half is
held up to silence by itself.  It does not matter which way the road rises. -/
theorem twoWay_halves (m : EmissionModel ℝ) {flow : VehicleFlow ℝ} {road : RoadState ℝ}
    {surface : RoadSurface ℝ} (sound : road.check = .ok ())
    (known : m.surfaces.get road.surface = .ok surface) (checked : flow.check = .ok ()) :
    ∃ both along against : Spectrum ℝ,
      m.evaluate flow { road with way := .twoWay } = .ok both ∧
      m.evaluate { flow with count := flow.count / 2 } { road with way := .direct } = .ok along ∧
      m.evaluate { flow with count := flow.count / 2 } { road with way := .inverse }
        = .ok against ∧
      (both.Arrives m.bands ∧ along.Arrives m.bands ∧ against.Arrives m.bands) ∧
      (∀ i < m.bands.size,
        m.ClearsFloor { flow with count := flow.count / 2 } { road with way := .direct } surface i →
        m.ClearsFloor { flow with count := flow.count / 2 } { road with way := .inverse }
          surface i →
        levelPower both.levels i = levelPower along.levels i + levelPower against.levels i) ∧
      m.evaluate flow { road with way := .twoWay, slope := -road.slope } = .ok both := by
  obtain ⟨moving, count⟩ := VehicleFlow.check_eq_ok_iff.1 checked
  have checked' : ({ flow with count := flow.count / 2 } : VehicleFlow ℝ).check = .ok () :=
    VehicleFlow.check_eq_ok_iff.2 ⟨moving, by positivity⟩
  refine ⟨_, _, _, evaluate_eq sound known checked, evaluate_eq sound known checked',
    evaluate_eq sound known checked', ⟨m.emission_arrives _ _ _, m.emission_arrives _ _ _,
    m.emission_arrives _ _ _⟩, fun i inRange clears clears' => ?_, ?_⟩
  · exact levelPower_sum (m.flowPower_twoWay flow road surface i)
      ((clearsFloor_iff checked').1 clears) ((clearsFloor_iff checked').1 clears') inRange
  · rw [← emission_twoWay_neg]
    exact evaluate_eq sound known checked

/-- A hundred cars on a ramp, in either direction, are fifty uphill and fifty downhill. -/
theorem ramp_halves : ∃ both uphill downhill : Spectrum ℝ,
    (standard .octave).evaluate ⟨.light, 50, 100⟩ { rampRoad with way := .twoWay } = .ok both ∧
    (standard .octave).evaluate ⟨.light, 50, 100 / 2⟩ { rampRoad with way := .direct }
      = .ok uphill ∧
    (standard .octave).evaluate ⟨.light, 50, 100 / 2⟩ { rampRoad with way := .inverse }
      = .ok downhill ∧
    (∀ i < 8, levelPower both.levels i
      = levelPower uphill.levels i + levelPower downhill.levels i) ∧
    (standard .octave).evaluate ⟨.light, 50, 100⟩
      { rampRoad with way := .twoWay, slope := -rampRoad.slope } = .ok both := by
  obtain ⟨surface, known⟩ := exists_rampSurface
  have checked (c : ℝ) (count : 0 ≤ c) : (⟨.light, 50, c⟩ : VehicleFlow ℝ).check = .ok () :=
    VehicleFlow.check_eq_ok_iff.2 ⟨by norm_num, count⟩
  obtain ⟨both, uphill, downhill, evaluates, evaluates', evaluates'', -, halves, reversed⟩ :=
    twoWay_halves (standard .octave) rampRoad_checked known (checked 100 (by norm_num))
  have dense : ((standard .octave : EmissionModel ℝ).bands.parts : ℝ)
      ≤ (standard .octave).density (⟨.light, 50, 100 / 2⟩ : VehicleFlow ℝ) := by
    simp only [standard, density, BandSet.parts]
    norm_num
  exact ⟨both, uphill, downhill, evaluates, evaluates', evaluates'', fun i inRange =>
    halves i inRange (clearsFloor_of_dense (checked _ (by norm_num)) dense)
      (clearsFloor_of_dense (checked _ (by norm_num)) dense), reversed⟩

end EmissionModel

end RoadNoise
