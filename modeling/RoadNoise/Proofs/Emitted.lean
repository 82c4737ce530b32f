/-
# RoadNoise.Proofs.Emitted -- traffic adds up like sound

The level of a flow is built up in decibels and held up to silence after every step: the
level of one vehicle, the gain by the number of vehicles, the share of a third octave.  In
powers only the first and the last of these floors are left (`EmissionModel.flowPower`):
what one vehicle is heard at is multiplied by the density of the traffic, divided among the
bands of an octave, and held up to silence once (`EmissionModel.evaluate_eq`).

So the power of a flow is proportional to the number of its vehicles, and what follows is
about sums of powers.  The last floor is felt only in bands where a flow by itself is below
silence (`EmissionModel.ClearsFloor` says where it is not), and nowhere if there is a vehicle
an hour for each band of an octave (`EmissionModel.clearsFloor_of_dense`).
-/
import RoadNoise.Proofs.Energetic
import RoadNoise.Traffic.Emission

set_option autoImplicit false

namespace RoadNoise

theorem VehicleFlow.check_eq_ok_iff {flow : VehicleFlow ℝ} {u : Unit} :
    flow.check = .ok u ↔ 0 < flow.speed ∧ 0 ≤ flow.count := by
  simp [check, check_bind_eq_ok_iff, demand_eq_ok_iff, Rule.admits]

/-- The number of bands that share the power of an octave. -/
def BandSet.parts : BandSet → Nat
  | .octave => 1
  | .thirdOctave => 3

theorem BandSet.parts_pos (bands : BandSet) : (0 : ℝ) < bands.parts := by
  cases bands <;> norm_num [parts]

theorem Spectrum.combine_eq_ok_iff {first : Spectrum ℝ} {rest : List (Spectrum ℝ)}
    {s : Spectrum ℝ} : combine (first :: rest) = .ok s ↔
      (∀ x ∈ first :: rest, x.bands = first.bands) ∧ s = together first.bands (first :: rest) := by
  simp only [combine, powers, bind_eq_ok_iff, addAll_eq_ok_iff]
  constructor
  · rintro ⟨_, ⟨same, rfl⟩, made⟩
    exact ⟨same, (Except.ok.inj made).symm⟩
  · rintro ⟨same, rfl⟩
    exact ⟨_, ⟨same, rfl⟩, rfl⟩

/-- What one vehicle of an hour is heard at, on the way that the traffic takes. -/
noncomputable def heardPower (flow : VehicleFlow ℝ) (road : RoadState ℝ)
    (surface : RoadSurface ℝ) (octave : Fin 8) : ℝ :=
  max (unitPower flow road surface octave) (Level.power Level.silent)

namespace EmissionModel

variable {m : EmissionModel ℝ} {flow : VehicleFlow ℝ} {road : RoadState ℝ}
  {surface : RoadSurface ℝ} {category : VehicleCategory} {speed : ℝ} {i : Nat}

/-! ## Levels and powers of a flow -/

/-- The level of a flow in a band, before it is held up to silence. -/
def bareLevel {α : Type} [Scalar α] (m : EmissionModel α) (flow : VehicleFlow α)
    (road : RoadState α) (surface : RoadSurface α) (i : Nat) : α :=
  Level.ofPower (unitPower flow road surface (m.bands.octaveOf i)) + m.flowGain flow
    - 10 * Scalar.log10 (Scalar.ofNat m.bands.parts)

/-- There is traffic, and it is not held up to silence in a band. -/
def ClearsFloor (m : EmissionModel ℝ) (flow : VehicleFlow ℝ) (road : RoadState ℝ)
    (surface : RoadSurface ℝ) (i : Nat) : Prop :=
  0 < flow.count ∧ Level.silent ≤ m.bareLevel flow road surface i

/-- Vehicles per hour, or vehicles per metre. -/
def density {α : Type} [Scalar α] (m : EmissionModel α) (flow : VehicleFlow α) : α :=
  match m.unit with
  | .perVehicleFlow => flow.count
  | .perMetre => flow.count / (1000 * flow.speed)

/-- The power of a flow in a band, before it is held up to silence. -/
noncomputable def flowPower (m : EmissionModel ℝ) (flow : VehicleFlow ℝ) (road : RoadState ℝ)
    (surface : RoadSurface ℝ) (i : Nat) : ℝ :=
  heardPower flow road surface (m.bands.octaveOf i) * m.density flow / m.bands.parts

/-- The levels of the power of a flow. -/
noncomputable def emission (m : EmissionModel ℝ) (flow : VehicleFlow ℝ) (road : RoadState ℝ)
    (surface : RoadSurface ℝ) : Spectrum ℝ :=
  ⟨m.bands, (List.range m.bands.size).map fun i =>
    Level.ofPower (m.flowPower flow road surface i)⟩

theorem flowGain_eq (m : EmissionModel ℝ) (flow : VehicleFlow ℝ) :
    m.flowGain flow = 10 * Real.logb 10 (m.density flow) := by
  unfold flowGain density
  cases m.unit <;> rfl

theorem density_pos (moving : 0 < flow.speed) (some : 0 < flow.count) : 0 < m.density flow := by
  unfold density
  split <;> positivity

theorem density_of_no_vehicle (none : flow.count = 0) : m.density flow = 0 := by
  unfold density
  split <;> simp [none]

theorem power_bareLevel (moving : 0 < flow.speed) (some : 0 < flow.count) (i : Nat) :
    Level.power (m.bareLevel flow road surface i) = m.flowPower flow road surface i := by
  rw [bareLevel, Scalar.log10_eq, Scalar.ofNat_eq, Level.power_sub_logb m.bands.parts_pos,
    Level.power_add,
    Level.power_ofPower_eq_max, flowGain_eq, Level.power_logb (density_pos moving some),
    flowPower, heardPower]

/-- Traffic clears the floor where its power is not below that of silence. -/
theorem clearsFloor_iff (checked : flow.check = .ok ()) : m.ClearsFloor flow road surface i ↔
    Level.power Level.silent ≤ m.flowPower flow road surface i := by
  obtain ⟨moving, count⟩ := VehicleFlow.check_eq_ok_iff.1 checked
  rcases count.eq_or_lt with none | some
  · rw [ClearsFloor, flowPower, density_of_no_vehicle none.symm, mul_zero, zero_div]
    exact iff_of_false (fun clears => clears.1.ne none) (Level.power_pos _).not_ge
  · rw [ClearsFloor, and_iff_right some, ← power_bareLevel moving some, Level.power_le_iff]

/-- So it does wherever there is a vehicle for each band of an octave. -/
theorem clearsFloor_of_dense (checked : flow.check = .ok ())
    (dense : m.bands.parts ≤ m.density flow) : m.ClearsFloor flow road surface i := by
  have heard : Level.power Level.silent
      ≤ heardPower flow road surface (m.bands.octaveOf i) := le_max_right _ _
  rw [clearsFloor_iff checked, flowPower, mul_div_assoc]
  refine heard.trans (le_mul_of_one_le_right ((Level.power_pos _).le.trans heard) ?_)
  exact (one_le_div m.bands.parts_pos).2 dense

/-! ## Evaluation -/

/-- Before a part of a level is held up to silence, it does not matter whether the level
is. -/
theorem max_max_sub {level floor part : ℝ} (less : 0 ≤ part) :
    max (max level floor - part) floor = max (level - part) floor := by
  rw [← max_sub_sub_right, max_assoc, max_eq_right (sub_le_self floor less)]

theorem levels_eq (m : EmissionModel ℝ) (flow : VehicleFlow ℝ) (road : RoadState ℝ)
    (surface : RoadSurface ℝ) : m.levels flow road surface
      = (List.range m.bands.size).map fun i =>
        max (m.bareLevel flow road surface i) Level.silent := by
  obtain ⟨bands, unit, surfaces⟩ := m
  cases bands with
  | octave =>
      have octaves : List.finRange 8 = (List.range 8).map (Fin.ofNat 8) := by decide
      simp only [levels, octaves, List.map_map]
      refine List.map_congr_left fun i _ => ?_
      simp [bareLevel, octaveLevel, BandSet.octaveOf, BandSet.parts]
  | thirdOctave =>
      have less : (0 : ℝ) ≤ 10 * Real.logb 10 3 :=
        mul_nonneg (by norm_num) (log10_nonneg (by norm_num))
      simp only [levels, BandSet.octaves, List.map_map]
      refine List.map_congr_left fun i _ => ?_
      exact max_max_sub less

section Valid

variable (sound : road.check = .ok ()) (known : m.surfaces.get road.surface = .ok surface)

include sound known

/-- Valid traffic on a road whose surface is known has an emission. -/
theorem evaluate_eq (checked : flow.check = .ok ()) :
    m.evaluate flow road = .ok (m.emission flow road surface) := by
  have answer : m.evaluate flow road = if flow.count ≤ 0 then .ok (Spectrum.silent m.bands)
      else Spectrum.ofLevels m.bands (m.levels flow road surface) := by
    rw [evaluate, checked, sound, known]
    rfl
  obtain ⟨moving, count⟩ := VehicleFlow.check_eq_ok_iff.1 checked
  rw [answer]
  rcases count.eq_or_lt with none | some
  · -- no vehicle has no power, and that is silence
    simp [← none, emission, flowPower, density_of_no_vehicle none.symm, Level.ofPower,
      Spectrum.silent, Spectrum.uniform]
  · have levels : m.levels flow road surface = (m.emission flow road surface).levels := by
      simp only [levels_eq, ← Level.ofPower_power, power_bareLevel moving some, emission]
    rw [if_neg some.not_ge, levels]
    exact Spectrum.ofLevels_eq_ok_iff.2 ⟨by simp [emission], rfl⟩

theorem evaluateAll_eq {flows : List (VehicleFlow ℝ)} (some : flows ≠ [])
    (checked : ∀ flow ∈ flows, flow.check = .ok ()) : m.evaluateAll flows road
      = .ok (.together m.bands (flows.map fun flow => m.emission flow road surface)) := by
  have mapped : flows.mapM (fun flow => m.evaluate flow road)
      = .ok (flows.map fun flow => m.emission flow road surface) := by
    refine (mapM_eq_ok_iff (P := fun _ => True) fun flow isFlow s => ?_).2 ⟨fun _ _ => trivial, rfl⟩
    rw [evaluate_eq sound known (checked flow isFlow), Except.ok.injEq, true_and, eq_comm]
  obtain ⟨first, rest, rfl⟩ := List.exists_cons_of_ne_nil some
  have answer : m.evaluateAll (first :: rest) road
      = (first :: rest).mapM (fun flow => m.evaluate flow road) >>= Spectrum.combine := rfl
  rw [answer, mapped]
  exact Spectrum.combine_eq_ok_iff.2 ⟨by simp [emission], rfl⟩

/-- Flows are heard together in whatever order. -/
theorem evaluateAll_perm {flows flows' : List (VehicleFlow ℝ)} (perm : flows.Perm flows')
    (some : flows' ≠ []) (checked : ∀ flow ∈ flows', flow.check = .ok ()) :
    m.evaluateAll flows road
      = .ok (.together m.bands (flows'.map fun flow => m.emission flow road surface)) := by
  have some' : flows ≠ [] := fun none => some (none ▸ perm).nil_eq.symm
  rw [evaluateAll_eq sound known some' fun flow isFlow => checked flow (perm.mem_iff.1 isFlow),
    Spectrum.together_perm (perm.map _)]

end Valid

/-! ## Sums of powers -/

theorem emission_arrives (m : EmissionModel ℝ) (flow : VehicleFlow ℝ) (road : RoadState ℝ)
    (surface : RoadSurface ℝ) : (m.emission flow road surface).Arrives m.bands := by
  refine ⟨by simp [emission], fun level isLevel => ?_⟩
  obtain ⟨i, -, rfl⟩ := List.mem_map.1 isLevel
  exact Level.silent_le_ofPower _

theorem levelPower_emission (inRange : i < m.bands.size) :
    levelPower (m.emission flow road surface).levels i
      = max (m.flowPower flow road surface i) (Level.power Level.silent) := by
  simp [levelPower, emission, inRange, Level.power_ofPower_eq_max]

/-- Powers that add up do so in the levels, where neither of them is below silence. -/
theorem levelPower_sum {part part' : VehicleFlow ℝ} {road' road'' : RoadState ℝ}
    (sum : m.flowPower flow road surface i
      = m.flowPower part road' surface i + m.flowPower part' road'' surface i)
    (heard : Level.power Level.silent ≤ m.flowPower part road' surface i)
    (heard' : Level.power Level.silent ≤ m.flowPower part' road'' surface i)
    (inRange : i < m.bands.size) : levelPower (m.emission flow road surface).levels i
      = levelPower (m.emission part road' surface).levels i
        + levelPower (m.emission part' road'' surface).levels i := by
  have whole : Level.power Level.silent ≤ m.flowPower flow road surface i := by
    rw [sum]
    exact le_add_of_le_of_nonneg heard ((Level.power_pos _).le.trans heard')
  rw [levelPower_emission inRange, levelPower_emission inRange, levelPower_emission inRange,
    max_eq_left whole, max_eq_left heard, max_eq_left heard', sum]

/-! ## The number of vehicles -/

section Counts

variable (m road surface category speed)

theorem density_add (c c' : ℝ) : m.density ⟨category, speed, c + c'⟩
    = m.density ⟨category, speed, c⟩ + m.density ⟨category, speed, c'⟩ := by
  unfold density
  split
  · rfl
  · exact add_div c c' _

/-- The power of a flow is that of its vehicles together. -/
theorem flowPower_add (c c' : ℝ) (i : Nat) :
    m.flowPower ⟨category, speed, c + c'⟩ road surface i
      = m.flowPower ⟨category, speed, c⟩ road surface i
        + m.flowPower ⟨category, speed, c'⟩ road surface i := by
  have same (count : ℝ) : heardPower ⟨category, speed, count⟩ road surface
      = heardPower ⟨category, speed, 0⟩ road surface := rfl
  simp only [flowPower, density_add, same]
  ring

variable {speed} (moving : 0 < speed)

include moving

theorem flowPower_nonneg {c : ℝ} (count : 0 ≤ c) (i : Nat) :
    0 ≤ m.flowPower ⟨category, speed, c⟩ road surface i := by
  have heard : 0 ≤ heardPower ⟨category, speed, c⟩ road surface (m.bands.octaveOf i) :=
    le_max_of_le_right (Level.power_pos _).le
  have density : 0 ≤ m.density ⟨category, speed, c⟩ := by
    unfold density
    split <;> positivity
  exact div_nonneg (mul_nonneg heard density) m.bands.parts_pos.le

theorem flowPower_mono {c c' : ℝ} (more : c ≤ c') (i : Nat) :
    m.flowPower ⟨category, speed, c⟩ road surface i
      ≤ m.flowPower ⟨category, speed, c'⟩ road surface i := by
  have rest := m.flowPower_nonneg road surface category moving (sub_nonneg.2 more) i
  have whole := m.flowPower_add road surface category speed c (c' - c) i
  rw [add_sub_cancel] at whole
  linarith

/-- More traffic is nowhere quieter. -/
theorem emission_mono {c c' : ℝ} (more : c ≤ c') :
    List.Forall₂ (· ≤ ·) (m.emission ⟨category, speed, c⟩ road surface).levels
      (m.emission ⟨category, speed, c'⟩ road surface).levels := by
  rw [emission, emission, List.forall₂_map_left_iff, List.forall₂_map_right_iff,
    List.forall₂_same]
  exact fun i _ => Level.ofPower_mono (m.flowPower_mono road surface category moving more i)

end Counts

section Parts

variable {c c' : ℝ}
  (heard : Level.power Level.silent ≤ m.flowPower ⟨category, speed, c⟩ road surface i)
  (heard' : Level.power Level.silent ≤ m.flowPower ⟨category, speed, c'⟩ road surface i)

include heard heard'

/-- Two flows of one kind are heard as one of all their vehicles, in a band where neither is
below silence by itself. -/
theorem levelPower_add (inRange : i < m.bands.size) :
    levelPower (m.emission ⟨category, speed, c + c'⟩ road surface).levels i
      = levelPower (m.emission ⟨category, speed, c⟩ road surface).levels i
        + levelPower (m.emission ⟨category, speed, c'⟩ road surface).levels i :=
  levelPower_sum (m.flowPower_add road surface category speed c c' i) heard heard' inRange

/-- Whatever else drives on the road. -/
theorem together_add (rest : List (Spectrum ℝ)) :
    (Spectrum.together m.bands
        (m.emission ⟨category, speed, c + c'⟩ road surface :: rest)).levels[i]?
      = (Spectrum.together m.bands (m.emission ⟨category, speed, c⟩ road surface
          :: m.emission ⟨category, speed, c'⟩ road surface :: rest)).levels[i]? := by
  rw [Spectrum.levels_together, Spectrum.levels_together, List.getElem?_map, List.getElem?_map]
  rcases lt_or_ge i m.bands.size with inRange | beyond
  · simp [inRange, Spectrum.bandPower, levelPower_add heard heard' inRange, add_assoc]
  · simp [beyond]

end Parts

/-- The emission of traffic grows with the number of vehicles, from silence on, and is
additive in it: in powers, and where no floor is felt.  So it makes no difference to the
emission of several flows in such a band, whatever the others are and wherever they stand,
whether the vehicles of one category and speed are one flow or two. -/
theorem traffic_additive (m : EmissionModel ℝ) (road : RoadState ℝ) {surface : RoadSurface ℝ}
    (category : VehicleCategory) {speed : ℝ} (sound : road.check = .ok ())
    (known : m.surfaces.get road.surface = .ok surface) (moving : 0 < speed) :
    ∃ levels : ℝ → List ℝ,
      (∀ c, 0 ≤ c → m.evaluate ⟨category, speed, c⟩ road = .ok ⟨m.bands, levels c⟩ ∧
        (levels c).length = m.bands.size ∧ ∀ level ∈ levels c, Level.silent ≤ level) ∧
      (∀ c c', 0 ≤ c → c ≤ c' → List.Forall₂ (· ≤ ·) (levels c) (levels c')) ∧
      (∀ c c' i, 0 ≤ c → 0 ≤ c' → i < m.bands.size →
        m.ClearsFloor ⟨category, speed, c⟩ road surface i →
        m.ClearsFloor ⟨category, speed, c'⟩ road surface i →
        levelPower (levels (c + c')) i = levelPower (levels c) i + levelPower (levels c') i) ∧
      ∀ c c' flows flows' rest, 0 ≤ c → 0 ≤ c' → (∀ flow ∈ rest, flow.check = .ok ()) →
        flows.Perm (⟨category, speed, c + c'⟩ :: rest) →
        flows'.Perm (⟨category, speed, c⟩ :: ⟨category, speed, c'⟩ :: rest) →
        ∃ whole split, m.evaluateAll flows road = .ok whole ∧
          m.evaluateAll flows' road = .ok split ∧
          ∀ i, m.ClearsFloor ⟨category, speed, c⟩ road surface i →
            m.ClearsFloor ⟨category, speed, c'⟩ road surface i →
            whole.levels[i]? = split.levels[i]? := by
  have valid : ∀ c, 0 ≤ c → (⟨category, speed, c⟩ : VehicleFlow ℝ).check = .ok () :=
    fun c count => VehicleFlow.check_eq_ok_iff.2 ⟨moving, count⟩
  refine ⟨fun c => (m.emission ⟨category, speed, c⟩ road surface).levels, ?_, ?_, ?_, ?_⟩
  · intro c count
    have arrives := m.emission_arrives ⟨category, speed, c⟩ road surface
    exact ⟨evaluate_eq sound known (valid c count), arrives.size, arrives.floor⟩
  · exact fun c c' _ more => m.emission_mono road surface category moving more
  · intro c c' i count count' inRange clears clears'
    exact levelPower_add ((clearsFloor_iff (valid c count)).1 clears)
      ((clearsFloor_iff (valid c' count')).1 clears') inRange
  · intro c c' flows flows' rest count count' checked perm perm'
    have others : ∀ flow ∈ ⟨category, speed, c'⟩ :: rest, flow.check = .ok () :=
      List.forall_mem_cons.2 ⟨valid c' count', checked⟩
    refine ⟨_, _, evaluateAll_perm sound known perm (List.cons_ne_nil _ _) ?_,
      evaluateAll_perm sound known perm' (List.cons_ne_nil _ _) ?_,
      fun i clears clears' => ?_⟩
    · exact List.forall_mem_cons.2 ⟨valid _ (add_nonneg count count'), checked⟩
    · exact List.forall_mem_cons.2 ⟨valid c count, others⟩
    · exact together_add ((clearsFloor_iff (valid c count)).1 clears)
        ((clearsFloor_iff (valid c' count')).1 clears') _

/-! ## A ramp -/

/-- A winter day on a ramp that rises to a traffic light. -/
noncomputable def rampRoad : RoadState ℝ where
  surface := "NL01"
  temperature := -5.0
  studdedRatio := 0.5
  studdedDays := 100.0
  junctionDistance := 30.0
  junction := .trafficLight
  slope := 8.0
  way := .direct
  sourceHeight := 0.05

theorem rampRoad_checked : rampRoad.check = .ok () := by
  simp only [RoadState.check, rampRoad, check_bind_eq_ok_iff, require_eq_ok_iff,
    demand_eq_ok_iff, Rule.admits, Scalar.isFinite_eq, Bool.true_and, Scalar.within_iff,
    decide_eq_true_eq]
  norm_num

theorem exists_rampSurface : ∃ surface,
    (SurfaceCatalogue.standard : SurfaceCatalogue ℝ).get rampRoad.surface = .ok surface :=
  ⟨_, rfl⟩

/-- Forty cars and sixty make a hundred, in every third octave. -/
theorem ramp_additive : ∃ few many all : Spectrum ℝ,
    (standard .thirdOctave).evaluate ⟨.light, 50, 40⟩ rampRoad = .ok few ∧
    (standard .thirdOctave).evaluate ⟨.light, 50, 60⟩ rampRoad = .ok many ∧
    (standard .thirdOctave).evaluate ⟨.light, 50, 100⟩ rampRoad = .ok all ∧
    ∀ i < 18, levelPower all.levels i = levelPower few.levels i + levelPower many.levels i := by
  obtain ⟨surface, known⟩ := exists_rampSurface
  obtain ⟨levels, evaluates, -, additive, -⟩ := traffic_additive (standard .thirdOctave) rampRoad
    .light rampRoad_checked known (by norm_num : (0 : ℝ) < 50)
  have clears (c : ℝ) (dense : 3 ≤ c) (i : Nat) :
      (standard .thirdOctave).ClearsFloor ⟨.light, 50, c⟩ rampRoad surface i := by
    refine clearsFloor_of_dense (VehicleFlow.check_eq_ok_iff.2 ⟨by norm_num, by linarith⟩) ?_
    simpa [standard, density, BandSet.parts] using dense
  refine ⟨_, _, _, (evaluates 40 (by norm_num)).1, (evaluates 60 (by norm_num)).1,
    (evaluates 100 (by norm_num)).1, fun i inRange => ?_⟩
  rw [← additive 40 60 i (by norm_num) (by norm_num) inRange (clears 40 (by norm_num) i)
    (clears 60 (by norm_num) i)]
  norm_num

end EmissionModel

end RoadNoise
