/-
# RoadNoise.Proofs.Absorbing -- the air takes more of higher tones

The formula for the absorption by the air divides and raises to fractional powers throughout,
and over the real numbers a quotient by zero would go unnoticed.  So it is evaluated once
more with numbers that notice (`Guarded`): there a quotient by zero, a power of a base that
is not positive and a root of a negative number have no value, and neither has anything that
is computed from them.  In every atmosphere that passes its check the formula has a value
there, the same as over the real numbers (`absorption_guarded`).

A tone is absorbed in three ways (`exists_absorption_eq`).  The classical part grows as the
square of the frequency; each of the two relaxation processes does so far below its own
frequency and levels off far above it (`relaxation`), but never stops growing.  How much
each part weighs depends on the weather alone, and no weight is zero, in dry air neither.
-/
import RoadNoise.Proofs.Bending

set_option autoImplicit false

namespace RoadNoise

/-! ## Numbers that notice what has no value -/

/-- A number, or nothing where an operation had no value. -/
structure Guarded where
  number? : Option ℝ

namespace Guarded

open Classical in
/-- The value of an operation where it has one. -/
noncomputable def only (defined : Prop) (x : ℝ) : Option ℝ := if defined then some x else none

def unary (f : ℝ → Option ℝ) (g : Guarded) : Guarded := ⟨g.number?.bind f⟩

def binary (f : ℝ → ℝ → Option ℝ) (g g' : Guarded) : Guarded :=
  ⟨g.number?.bind fun x => g'.number?.bind (f x)⟩

/-- It has a value, and which. -/
def Is (g : Guarded) (x : ℝ) : Prop := g.number? = some x

theorem Is.unary {g : Guarded} {x z : ℝ} (value : g.Is x) {f : ℝ → Option ℝ}
    (defined : f x = some z) : (g.unary f).Is z := by
  rw [Is, Guarded.unary, value, Option.bind_some, defined]

theorem Is.binary {g g' : Guarded} {x y z : ℝ} (left : g.Is x) (right : g'.Is y)
    {f : ℝ → ℝ → Option ℝ} (defined : f x y = some z) : (Guarded.binary f g g').Is z := by
  rw [Is, Guarded.binary, left, Option.bind_some, right, Option.bind_some, defined]

/-- A relation that holds of two numbers. -/
def Both (r : ℝ → ℝ → Prop) (x y : Guarded) : Prop :=
  ∃ a b, x.number? = some a ∧ y.number? = some b ∧ r a b

noncomputable instance : Scalar Guarded where
  add := binary fun x y => some (x + y)
  sub := binary fun x y => some (x - y)
  mul := binary fun x y => some (x * y)
  div := binary fun x y => only (y ≠ 0) (x / y)
  neg := unary fun x => some (-x)
  zero := ⟨some 0⟩
  one := ⟨some 1⟩
  lt := Both (· < ·)
  le := Both (· ≤ ·)
  decLt _ _ := Classical.propDecidable _
  decLe _ _ := Classical.propDecidable _
  min := binary fun x y => some (min x y)
  max := binary fun x y => some (max x y)
  order x y := cmp (x.number?.getD 0) (y.number?.getD 0)
  isFinite x := x.number?.isSome
  abs := unary fun x => some |x|
  sqrt := unary fun x => only (0 ≤ x) (Real.sqrt x)
  hypot := binary fun x y => some (Real.sqrt (x ^ 2 + y ^ 2))
  exp := unary fun x => some (Real.exp x)
  log10 := unary fun x => only (0 < x) (Scalar.log10 x)
  pow := binary fun x y => only (0 < x) (x ^ y)
  asin := unary fun x => only (|x| ≤ 1) (Real.arcsin x)
  atan2 := binary fun y x => some (Complex.arg ⟨x, y⟩)
  pi := ⟨some Real.pi⟩
  ofNat n := ⟨some n⟩
  ofInt n := ⟨some n⟩
  ofDecimal digits negative exponent := ⟨some (OfScientific.ofScientific digits negative exponent)⟩
  floor x := ⌊x.number?.getD 0⌋
  ceil := unary fun x => some ⌈x⌉
  truncate x := ⌊x.number?.getD 0⌋₊

/-- A number as it is. -/
def of (x : ℝ) : Guarded := ⟨some x⟩

section Operations

variable {g g' : Guarded} {x y : ℝ} (left : g.Is x) (right : g'.Is y)

include left

theorem Is.exp : Guarded.Is (Scalar.exp g) (Real.exp x) := left.unary rfl

theorem Is.sqrt (nonneg : 0 ≤ x) : Guarded.Is (Scalar.sqrt g) (Real.sqrt x) :=
  left.unary (if_pos nonneg)

include right

theorem Is.add : (g + g').Is (x + y) := left.binary right rfl

theorem Is.sub : (g - g').Is (x - y) := left.binary right rfl

theorem Is.mul : (g * g').Is (x * y) := left.binary right rfl

theorem Is.div (apart : y ≠ 0) : (g / g').Is (x / y) := left.binary right (if_pos apart)

theorem Is.pow (positive : 0 < x) : Guarded.Is (Scalar.pow g g') (x ^ y) :=
  left.binary right (if_pos positive)

end Operations

end Guarded

namespace Atmosphere

variable {a : Atmosphere ℝ}

/-! ## The formula has a value -/

theorem kelvins_pos (warm : -273.15 < a.temperature) : 0 < a.temperature + 273.15 := by
  linarith

theorem relativeTemperature_pos (warm : -273.15 < a.temperature) :
    0 < (a.temperature + 273.15) / referenceTemperature :=
  div_pos (kelvins_pos warm) (by norm_num [referenceTemperature])

theorem relativePressure_pos (dense : 0 < a.pressure) : 0 < a.pressure / referencePressure :=
  div_pos dense (by norm_num [referencePressure])

/-- The state of the air, in numbers that notice. -/
def guarded (a : Atmosphere ℝ) : Atmosphere Guarded :=
  ⟨.of a.temperature, .of a.humidity, .of a.pressure⟩

theorem relativeTemperature_guarded (a : Atmosphere ℝ) :
    ((a.guarded.temperature + 273.15) / referenceTemperature).Is
      ((a.temperature + 273.15) / referenceTemperature) :=
  .div rfl rfl (by norm_num [referenceTemperature])

theorem relativePressure_guarded (a : Atmosphere ℝ) :
    (a.guarded.pressure / referencePressure).Is (a.pressure / referencePressure) :=
  .div rfl rfl (by norm_num [referencePressure])

theorem vapour_guarded (warm : -273.15 < a.temperature) (dense : 0 < a.pressure) :
    a.guarded.vapour.Is a.vapour := by
  have kelvins := kelvins_pos warm
  -- the derivation follows the formula; what is left is asked by its quotients and powers
  refine .div (.mul rfl (.pow rfl (.add (.mul rfl (.pow (.div rfl rfl ?kelvins) rfl ?ratio)) rfl)
    ?ten)) (relativePressure_guarded a) ?pressure
  case kelvins => exact kelvins.ne'
  case ratio => positivity
  case ten => norm_num
  case pressure => exact (relativePressure_pos dense).ne'

theorem oxygenRelaxation_guarded (warm : -273.15 < a.temperature) (humid : 0 ≤ a.humidity)
    (dense : 0 < a.pressure) : a.guarded.oxygenRelaxation.Is a.oxygenRelaxation := by
  have moist := vapour_nonneg humid dense
  have vapour := vapour_guarded warm dense
  refine .mul (relativePressure_guarded a)
    (.add rfl (.div (.mul (.mul rfl vapour) (.add rfl vapour)) (.add rfl vapour) ?moist))
  case moist => positivity

theorem nitrogenRelaxation_guarded (warm : -273.15 < a.temperature) (dense : 0 < a.pressure) :
    a.guarded.nitrogenRelaxation.Is a.nitrogenRelaxation := by
  have positive := relativeTemperature_pos warm
  have temperature := relativeTemperature_guarded a
  refine .mul (.mul (relativePressure_guarded a) (.pow temperature rfl positive))
    (.add rfl (.mul (.mul rfl (vapour_guarded warm dense))
      (.exp (.mul rfl (.sub (.pow temperature (.div rfl rfl ?three) positive) rfl)))))
  case three => norm_num

theorem absorption_guarded (warm : -273.15 < a.temperature) (humid : 0 ≤ a.humidity)
    (dense : 0 < a.pressure) (f : ℝ) :
    (a.guarded.absorption (.of f)).Is (a.absorption f) := by
  have kelvins := kelvins_pos warm
  have positive := relativeTemperature_pos warm
  have oxygen := oxygenRelaxation_pos humid dense
  have nitrogen := nitrogenRelaxation_pos warm humid dense
  have square : 0 ≤ f * f := mul_self_nonneg f
  have isTemperature := relativeTemperature_guarded a
  have isOxygen := oxygenRelaxation_guarded warm humid dense
  have isNitrogen := nitrogenRelaxation_guarded warm dense
  have relaxes {g : Guarded} {r : ℝ} (isRelaxation : g.Is r) (some : 0 < r) (k e : ℝ) :
      (Guarded.of k * Scalar.exp (.of e / (a.guarded.temperature + 273.15))
          / (g + .of (f * f) / g)).Is
        (k * Real.exp (e / (a.temperature + 273.15)) / (r + f * f / r)) := by
    refine .div (.mul rfl (.exp (.div rfl rfl kelvins.ne')))
      (.add isRelaxation (.div rfl isRelaxation some.ne')) ?_
    positivity
  refine .mul rfl (.mul rfl (.add ?classical
    (.mul (.pow isTemperature rfl positive) (.add ?byOxygen ?byNitrogen))))
  case classical =>
    exact .mul (.div rfl (relativePressure_guarded a) (relativePressure_pos dense).ne')
      (.sqrt isTemperature positive.le)
  case byOxygen => exact relaxes isOxygen oxygen 0.01275 (-2239.1)
  case byNitrogen => exact relaxes isNitrogen nitrogen 0.1068 (-3352)

/-! ## Three ways to lose -/

/-- What a relaxation process takes from a tone of squared frequency `s`, by its own
frequency `r`. -/
noncomputable def relaxation (r s : ℝ) : ℝ := s / (r + s / r)

theorem relaxation_pos {r s : ℝ} (positive : 0 < r) (some : 0 < s) : 0 < relaxation r s := by
  unfold relaxation
  positivity

theorem relaxation_lt_relaxation {r s s' : ℝ} (positive : 0 < r) (start : 0 ≤ s)
    (higher : s < s') : relaxation r s < relaxation r s' := by
  have stop : 0 < s' := start.trans_lt higher
  have same : s * (s' / r) = s' * (s / r) := by ring
  have grows : s * r < s' * r := mul_lt_mul_of_pos_right higher positive
  rw [relaxation, relaxation, div_lt_div_iff₀ (by positivity) (by positivity), mul_add, mul_add,
    same]
  exact add_lt_add_left grows _

/-- The absorption by its parts: how much each weighs depends on the weather alone. -/
theorem exists_absorption_eq (warm : -273.15 < a.temperature) (dense : 0 < a.pressure) :
    ∃ classical oxygen nitrogen : ℝ, 0 < classical ∧ 0 < oxygen ∧ 0 < nitrogen ∧
      ∀ f, a.absorption f = classical * f ^ 2
        + oxygen * relaxation a.oxygenRelaxation (f ^ 2)
        + nitrogen * relaxation a.nitrogenRelaxation (f ^ 2) := by
  have temperature := relativeTemperature_pos warm
  have pressure := relativePressure_pos dense
  set t := (a.temperature + 273.15) / referenceTemperature
  set p := a.pressure / referencePressure
  refine ⟨8686 * (1.84e-11 / p * Real.sqrt t),
    8686 * (t ^ (-2.5 : ℝ) * (0.01275 * Real.exp (-2239.1 / (a.temperature + 273.15)))),
    8686 * (t ^ (-2.5 : ℝ) * (0.1068 * Real.exp (-3352 / (a.temperature + 273.15)))),
    by positivity, by positivity, by positivity, fun f => ?_⟩
  simp only [absorption, relaxation, Scalar.pow_eq, Scalar.exp_eq, Scalar.sqrt_eq, pow_two]
  ring

theorem absorption_pos (warm : -273.15 < a.temperature) (humid : 0 ≤ a.humidity)
    (dense : 0 < a.pressure) {f : ℝ} (some : 0 < f) : 0 < a.absorption f := by
  obtain ⟨classical, oxygen, nitrogen, first, second, third, parts⟩ :=
    exists_absorption_eq warm dense
  have square : 0 < f ^ 2 := by positivity
  have atOxygen := relaxation_pos (oxygenRelaxation_pos humid dense) square
  have atNitrogen := relaxation_pos (nitrogenRelaxation_pos warm humid dense) square
  rw [parts]
  positivity

/-- A higher tone loses more. -/
theorem absorption_lt_absorption (warm : -273.15 < a.temperature) (humid : 0 ≤ a.humidity)
    (dense : 0 < a.pressure) {f f' : ℝ} (start : 0 ≤ f) (higher : f < f') :
    a.absorption f < a.absorption f' := by
  obtain ⟨classical, oxygen, nitrogen, first, second, third, parts⟩ :=
    exists_absorption_eq warm dense
  have squares : f ^ 2 < f' ^ 2 := pow_lt_pow_left₀ higher start two_ne_zero
  have atOxygen := relaxation_lt_relaxation (oxygenRelaxation_pos humid dense) (sq_nonneg f) squares
  have atNitrogen :=
    relaxation_lt_relaxation (nitrogenRelaxation_pos warm humid dense) (sq_nonneg f) squares
  rw [parts, parts]
  gcongr

end Atmosphere

namespace AirAbsorption

/-- Over a longer way no band loses less. -/
theorem loss_mono {air : AirAbsorption ℝ} (absorbing : ∀ c ∈ air.coefficients, 0 ≤ c) {near far : ℝ}
    (farther : near ≤ far) : List.Forall₂ (· ≤ ·) (air.loss near) (air.loss far) := by
  rw [loss, loss, List.forall₂_map_left_iff, List.forall₂_map_right_iff, List.forall₂_same]
  intro c coefficient
  have product := mul_le_mul_of_nonneg_left farther (absorbing c coefficient)
  linarith

end AirAbsorption

/-- In every atmosphere that passes its check the formula for the absorption divides nowhere
by zero, and what it takes from a tone is positive and grows with the frequency.  So either
set of bands has coefficients, all of them positive and rising from band to band, and over a
distance no band gains and over a longer one no band loses less. -/
theorem Atmosphere.absorption_rising {a : Atmosphere ℝ} (checked : a.check = .ok ()) :
    (∀ f, (a.guarded.absorption (.of f)).number? = some (a.absorption f)) ∧
    (∀ f, 0 < f → 0 < a.absorption f) ∧
    (∀ f f', 0 < f → f < f' → a.absorption f < a.absorption f') ∧
    ∀ bands, ∃ air, AirAbsorption.ofAtmosphere a bands = .ok air ∧ air.bands = bands ∧
      air.coefficients.length = bands.size ∧ (∀ c ∈ air.coefficients, 0 < c) ∧
      air.coefficients.Pairwise (· < ·) ∧
      ∀ d, 0 ≤ d → (air.loss d).length = bands.size ∧ (∀ x ∈ air.loss d, 0 ≤ x) ∧
        ∀ d', d ≤ d' → List.Forall₂ (· ≤ ·) (air.loss d) (air.loss d') := by
  obtain ⟨warm, ⟨humid, -⟩, dense⟩ := check_eq_ok_iff.1 checked
  refine ⟨absorption_guarded warm humid dense, fun f => absorption_pos warm humid dense,
    fun f f' start => absorption_lt_absorption warm humid dense start.le, fun bands => ?_⟩
  have absorbs : ∀ c ∈ (bands.exactFrequencies : List ℝ).map a.absorption, 0 < c := by
    rw [List.forall_mem_map]
    intro f frequency
    exact absorption_pos warm humid dense (exactFrequencies_pos bands f frequency)
  refine ⟨_, AirAbsorption.ofAtmosphere_eq_ok_iff.2 ⟨checked, rfl⟩, rfl, by simp, absorbs, ?_,
    fun d start => ⟨by simp [AirAbsorption.loss], ?_, fun d' => ?_⟩⟩
  · rw [List.pairwise_map]
    refine bands.exactFrequencies_rising.imp_of_mem fun {low high} isLow _ rises => ?_
    exact absorption_lt_absorption warm humid dense (exactFrequencies_pos bands low isLow).le rises
  · intro x loss
    obtain ⟨c, coefficient, rfl⟩ := List.mem_map.1 loss
    have positive := absorbs c coefficient
    positivity
  · exact AirAbsorption.loss_mono fun c coefficient => (absorbs c coefficient).le

/-- Forty degrees of frost on a mountain, with no water in the air at all. -/
noncomputable def polarAir : Atmosphere ℝ := ⟨-40.0, 0, 60000.0⟩

theorem polarAir_rising : polarAir.check = .ok () ∧
    polarAir.absorption 63 < polarAir.absorption 8000 ∧
    ∃ air, AirAbsorption.ofAtmosphere polarAir .thirdOctave = .ok air ∧
      air.coefficients.length = 18 ∧ air.coefficients.Pairwise (· < ·) ∧
      ∀ x ∈ air.loss 500, 0 ≤ x := by
  have checked : polarAir.check = .ok () := by
    rw [Atmosphere.check_eq_ok_iff]
    norm_num [polarAir]
  obtain ⟨-, -, rises, bands⟩ := polarAir.absorption_rising checked
  obtain ⟨air, made, -, size, -, rising, loses⟩ := bands .thirdOctave
  exact ⟨checked, rises 63 8000 (by norm_num) (by norm_num), air, made, size, rising,
    (loses 500 (by norm_num)).2.1⟩

end RoadNoise
