/-
# RoadNoise.Proofs.Thirds -- an octave in three parts

The tables of the traffic model are given per octave, and three third octaves that follow
each other share the power of an octave equally (`BandSet.bandsOf_thirdOctave`,
`EmissionModel.flowPower_third`).  A third of a power that is not below silence may be, and
then its level is held up.  Where none is, the levels of the three parts come to that of the
octave again (`Spectrum.energetic_inOctave`), and so they do for several flows together, as
both the sum over the flows and the share of a third octave are linear in powers.
-/
import RoadNoise.Proofs.Emitted

set_option autoImplicit false

namespace RoadNoise

/-! ## Bands of an octave -/

/-- The bands that take their values from an octave. -/
def BandSet.bandsOf (bands : BandSet) (octave : Fin 8) : List Nat :=
  (List.range bands.size).filter fun i => bands.octaveOf i = octave

theorem BandSet.mem_bandsOf {bands : BandSet} {octave : Fin 8} {i : Nat} :
    i ∈ bands.bandsOf octave ↔ i < bands.size ∧ bands.octaveOf i = octave := by
  simp [bandsOf]

/-- From 125 Hz to 4 kHz an octave has three third octaves, one after the other. -/
theorem BandSet.bandsOf_thirdOctave {k : Fin 8} (low : 1 ≤ k) (high : k ≤ 6) :
    BandSet.thirdOctave.bandsOf k = [3 * k.val - 3, 3 * k.val - 2, 3 * k.val - 1] := by
  revert low high
  revert k
  decide

/-- A level is at least three times as powerful as silence. -/
def LoudEnough {α : Type} [Scalar α] (level : α) : Prop :=
  Level.silent + 10 * Scalar.log10 3 ≤ level

theorem loudEnough_iff {level : ℝ} :
    LoudEnough level ↔ 3 * Level.power Level.silent ≤ Level.power level := by
  rw [LoudEnough, Scalar.log10_eq, ← Level.power_le_iff, Level.power_add,
    Level.power_logb (by norm_num), mul_comm]

namespace Spectrum

/-- The levels of a spectrum in the bands of an octave. -/
def inOctave {α : Type} (s : Spectrum α) (octave : Fin 8) : List α :=
  (s.bands.bandsOf octave).filterMap fun i => s.levels[i]?

/-- Three equal parts of a level come to the level. -/
theorem energetic_inOctave {s : Spectrum ℝ} (thirds : s.bands = .thirdOctave) {k : Fin 8}
    (low : 1 ≤ k) (high : k ≤ 6) {level : ℝ}
    (share : ∀ i ∈ BandSet.thirdOctave.bandsOf k,
      levelPower s.levels i = Level.power level / 3) :
    Level.energetic (s.inOctave k) = level := by
  have power : ((s.inOctave k).map Level.power).sum = Level.power level := calc
    _ = ((s.bands.bandsOf k).map (levelPower s.levels)).sum := Level.sum_power_filterMap _ _
    _ = ((BandSet.thirdOctave.bandsOf k).map fun _ => Level.power level / 3).sum := by
      rw [thirds, List.map_congr_left share]
    _ = Level.power level := by
      rw [BandSet.bandsOf_thirdOctave low high]
      simp only [List.map_cons, List.map_nil, List.sum_cons, List.sum_nil]
      ring
  rw [Level.energetic_eq, power, Level.logb_power, mul_div_cancel₀ level (by norm_num)]

end Spectrum

namespace EmissionModel

variable {m : EmissionModel ℝ} {flow : VehicleFlow ℝ} {flows : List (VehicleFlow ℝ)}
  {road : RoadState ℝ} {surface : RoadSurface ℝ} {k : Fin 8} {i : Nat}

/-- The model in other bands. -/
def inBands (m : EmissionModel ℝ) (bands : BandSet) : EmissionModel ℝ :=
  { m with bands := bands }

theorem arrives_inBands (m : EmissionModel ℝ) (bands : BandSet) (flow : VehicleFlow ℝ)
    (road : RoadState ℝ) (surface : RoadSurface ℝ) :
    ((m.inBands bands).emission flow road surface).Arrives bands :=
  (m.inBands bands).emission_arrives flow road surface

/-! ## Shares -/

theorem flowPower_third (isPart : i ∈ BandSet.thirdOctave.bandsOf k) :
    (m.inBands .thirdOctave).flowPower flow road surface i
      = (m.inBands .octave).flowPower flow road surface k / 3 := by
  have octave : BandSet.octave.octaveOf k = k := by simp [BandSet.octaveOf]
  simp only [flowPower, inBands, (BandSet.mem_bandsOf.1 isPart).2, octave, BandSet.parts, density]
  norm_num

/-- A third octave has a third of the power of its octave, if that is loud enough. -/
theorem levelPower_third (isPart : i ∈ BandSet.thirdOctave.bandsOf k)
    (loud : 3 * Level.power Level.silent
      ≤ levelPower ((m.inBands .octave).emission flow road surface).levels k) :
    levelPower ((m.inBands .thirdOctave).emission flow road surface).levels i
      = levelPower ((m.inBands .octave).emission flow road surface).levels k / 3 := by
  have faint := Level.power_pos Level.silent
  have octave : levelPower ((m.inBands .octave).emission flow road surface).levels k
      = max ((m.inBands .octave).flowPower flow road surface k) (Level.power Level.silent) :=
    levelPower_emission k.isLt
  have heard : 3 * Level.power Level.silent
      ≤ (m.inBands .octave).flowPower flow road surface k := by
    rw [octave, le_max_iff] at loud
    exact loud.resolve_right (by linarith)
  rw [octave, levelPower_emission (BandSet.mem_bandsOf.1 isPart).1, flowPower_third isPart,
    max_eq_left (by linarith), max_eq_left (by linarith)]

/-- So it has of several flows, if each of them is loud enough. -/
theorem levelPower_together_third (some : flows ≠ [])
    (isPart : i ∈ BandSet.thirdOctave.bandsOf k)
    (loud : ∀ flow ∈ flows, 3 * Level.power Level.silent
      ≤ levelPower ((m.inBands .octave).emission flow road surface).levels k) :
    levelPower (Spectrum.together .thirdOctave
        (flows.map fun flow => (m.inBands .thirdOctave).emission flow road surface)).levels i
      = levelPower (Spectrum.together .octave
        (flows.map fun flow => (m.inBands .octave).emission flow road surface)).levels k / 3 := by
  have power {bands : BandSet} {j : Nat} (inRange : j < bands.size) :
      levelPower (Spectrum.together bands
          (flows.map fun flow => (m.inBands bands).emission flow road surface)).levels j
        = (flows.map fun flow =>
            levelPower ((m.inBands bands).emission flow road surface).levels j).sum := by
    have arrive : ∀ s ∈ flows.map fun flow => (m.inBands bands).emission flow road surface,
        s.Arrives bands := by
      simpa using fun flow _ => m.arrives_inBands bands flow road surface
    rw [Spectrum.levelPower_together (by simpa using some) arrive inRange, Spectrum.bandPower,
      List.map_map]
    rfl
  rw [power (BandSet.mem_bandsOf.1 isPart).1, power k.isLt,
    List.map_congr_left fun flow isFlow => levelPower_third isPart (loud flow isFlow)]
  simp only [div_eq_mul_inv, List.sum_map_mul_right]

/-! ## Evaluation -/

/-- Third octaves have together what their octave has: of a flow in an octave that is loud
enough, and of several flows if each of them is. -/
theorem octave_shared (m : EmissionModel ℝ) {road : RoadState ℝ} {surface : RoadSurface ℝ}
    (sound : road.check = .ok ()) (known : m.surfaces.get road.surface = .ok surface) {k : Fin 8}
    (low : 1 ≤ k) (high : k ≤ 6) :
    BandSet.thirdOctave.bandsOf k = [3 * k.val - 3, 3 * k.val - 2, 3 * k.val - 1] ∧
    (∀ flow, flow.check = .ok () → ∃ octaves thirds,
      (m.inBands .octave).evaluate flow road = .ok octaves ∧
      (m.inBands .thirdOctave).evaluate flow road = .ok thirds ∧
      octaves.Arrives .octave ∧ thirds.Arrives .thirdOctave ∧
      ∀ level, octaves.levels[k.val]? = some level → LoudEnough level →
        Level.energetic (thirds.inOctave k) = level) ∧
    ∀ flows, flows ≠ [] → (∀ flow ∈ flows, flow.check = .ok ()) → ∃ octaves thirds,
      (m.inBands .octave).evaluateAll flows road = .ok octaves ∧
      (m.inBands .thirdOctave).evaluateAll flows road = .ok thirds ∧
      octaves.Arrives .octave ∧ thirds.Arrives .thirdOctave ∧
      ((∀ flow ∈ flows, ∀ alone level, (m.inBands .octave).evaluate flow road = .ok alone →
          alone.levels[k.val]? = some level → LoudEnough level) →
        octaves.levels[k.val]? = some (Level.energetic (thirds.inOctave k))) := by
  have known (bands : BandSet) : (m.inBands bands).surfaces.get road.surface = .ok surface := known
  refine ⟨BandSet.bandsOf_thirdOctave low high, ?_, ?_⟩
  · intro flow checked
    refine ⟨_, _, evaluate_eq sound (known _) checked, evaluate_eq sound (known _) checked,
      m.arrives_inBands _ _ _ _, m.arrives_inBands _ _ _ _, fun level band loud => ?_⟩
    refine Spectrum.energetic_inOctave rfl low high fun i isPart => ?_
    rw [← levelPower_of_getElem? band]
    refine levelPower_third isPart ?_
    rw [levelPower_of_getElem? band]
    exact loudEnough_iff.1 loud
  · intro flows some checked
    refine ⟨_, _, evaluateAll_eq sound (known _) some checked,
      evaluateAll_eq sound (known _) some checked, Spectrum.arrives_together _ _,
      Spectrum.arrives_together _ _, fun loud => ?_⟩
    obtain ⟨level, band, -⟩ := (Spectrum.arrives_together .octave (flows.map fun flow =>
      (m.inBands .octave).emission flow road surface)).exists_level k.isLt
    refine band.trans (congrArg _ (Spectrum.energetic_inOctave rfl low high fun i isPart => ?_).symm)
    rw [← levelPower_of_getElem? band]
    refine levelPower_together_third some isPart fun flow isFlow => ?_
    obtain ⟨alone, part, -⟩ :=
      (m.arrives_inBands .octave flow road surface).exists_level k.isLt
    have answer := evaluate_eq sound (known .octave) (checked flow isFlow)
    rw [levelPower_of_getElem? part]
    exact loudEnough_iff.1 (loud flow isFlow _ alone answer part)

/-- Three vehicles an hour are loud enough. -/
theorem loudEnough_of_dense (dense : 3 ≤ m.density flow) {level : ℝ}
    (band : ((m.inBands .octave).emission flow road surface).levels[k.val]? = some level) :
    LoudEnough level := by
  have heard : Level.power Level.silent
      ≤ heardPower flow road surface ((m.inBands .octave).bands.octaveOf k) := le_max_right _ _
  have same : (m.inBands .octave).flowPower flow road surface k
      = heardPower flow road surface ((m.inBands .octave).bands.octaveOf k) * m.density flow := by
    simp [flowPower, inBands, density, BandSet.parts]
  rw [loudEnough_iff, ← levelPower_of_getElem? band, levelPower_emission k.isLt, same]
  refine le_max_of_le_left ?_
  nlinarith [Level.power_pos Level.silent]

/-- The third octaves around a kilohertz of cars and lorries on a ramp have together what the
octave has. -/
theorem ramp_shared : ∃ octaves thirds : Spectrum ℝ,
    (standard .octave).evaluateAll [⟨.light, 50, 100⟩, ⟨.heavy, 40, 20⟩] rampRoad = .ok octaves ∧
    (standard .thirdOctave).evaluateAll [⟨.light, 50, 100⟩, ⟨.heavy, 40, 20⟩] rampRoad
      = .ok thirds ∧
    octaves.levels[4]? = some (Level.energetic (thirds.inOctave 4)) := by
  obtain ⟨surface, known⟩ := exists_rampSurface
  obtain ⟨-, -, several⟩ := octave_shared (standard .octave) rampRoad_checked known
    (k := 4) (by decide) (by decide)
  have checked : ∀ flow ∈ ([⟨.light, 50, 100⟩, ⟨.heavy, 40, 20⟩] : List (VehicleFlow ℝ)),
      flow.check = .ok () := by
    simp [VehicleFlow.check_eq_ok_iff]
  obtain ⟨octaves, thirds, evaluates, evaluates', -, -, shared⟩ :=
    several _ (List.cons_ne_nil _ _) checked
  refine ⟨octaves, thirds, evaluates, evaluates', shared ?_⟩
  intro flow isFlow alone level answer band
  rw [evaluate_eq rampRoad_checked known (checked flow isFlow), Except.ok.injEq] at answer
  subst answer
  refine loudEnough_of_dense (m := standard .octave) ?_ band
  simp only [List.mem_cons, List.not_mem_nil, or_false] at isFlow
  obtain rfl | rfl := isFlow <;> norm_num [density, standard]

end EmissionModel

end RoadNoise
