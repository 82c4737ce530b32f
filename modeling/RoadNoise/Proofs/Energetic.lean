/-
# RoadNoise.Proofs.Energetic -- the floor is never heard

Levels are held up to silence twice on their way to a receiver's result: in every band of
the sum, and once more in the level as the ear weighs it.  Without a floor the level of some
sounds is their energetic sum (`Level.energetic`), which is free of order and grouping.  The
two agree as soon as one of the levels is not below silence by itself
(`Level.total_eq_energetic`), and here one always is: a contribution is nowhere below
silence, and every band set has a band to which the ear adds nothing
(`BandSet.aWeighting_reference`).

So a result at a receiver is an energetic sum throughout.  That the weighing may be done
before or after the sum over the contributions is an exchange of two sums over powers
(`Spectrum.weightedPower_bandPower`).
-/
import RoadNoise.Proofs.Powers

set_option autoImplicit false

namespace RoadNoise

/-! ## Levels -/

namespace Level

/-- The level of sounds heard together, had levels no floor. -/
def energetic {α : Type} [Scalar α] (levels : List α) : α :=
  10 * Scalar.log10 (Scalar.sum (levels.map power))

variable {levels first second : List ℝ}

theorem energetic_eq (levels : List ℝ) :
    energetic levels = 10 * Real.logb 10 (levels.map power).sum := by
  rw [energetic, Scalar.sum_eq]
  rfl

theorem sum_power_pos (some : levels ≠ []) : 0 < (levels.map power).sum := by
  refine List.sum_pos _ (fun p isPower => ?_) (by simpa using some)
  obtain ⟨level, -, rfl⟩ := List.mem_map.1 isPower
  exact power_pos level

theorem power_energetic (some : levels ≠ []) :
    power (energetic levels) = (levels.map power).sum := by
  rw [energetic_eq, power_logb (sum_power_pos some)]

/-- What has no level adds no power. -/
theorem sum_power_filterMap {β : Type} (f : β → Option ℝ) (l : List β) :
    ((l.filterMap f).map power).sum = (l.map fun x => ((f x).map power).getD 0).sum := by
  induction l with
  | nil => rfl
  | cons x l ih =>
      rw [List.map_cons, List.sum_cons, ← ih]
      cases h : f x <;> simp [h]

theorem energetic_append (some : first ≠ []) (some' : second ≠ []) :
    energetic (first ++ second) = energetic [energetic first, energetic second] := by
  rw [energetic_eq, energetic_eq [_, _]]
  simp [power_energetic some, power_energetic some']

/-- `k` sounds of one level are as many decibels above one of them as `k` stands for. -/
theorem energetic_replicate {k : Nat} (several : k ≠ 0) (level : ℝ) :
    energetic (List.replicate k level) = level + 10 * Real.logb 10 k := by
  rw [energetic_eq, List.map_replicate, List.sum_replicate, nsmul_eq_mul,
    Real.logb_mul (by exact_mod_cast several) (power_pos level).ne', logb_power]
  ring

theorem energetic_singleton (level : ℝ) : energetic [level] = level := by
  simpa using energetic_replicate one_ne_zero level

/-- One level that is not below silence keeps the floor away. -/
theorem total_eq_energetic (heard : ∃ level ∈ levels, silent ≤ level) :
    total levels = energetic levels := by
  obtain ⟨level, isLevel, audible⟩ := heard
  have alone : power level ≤ (levels.map power).sum := by
    refine List.single_le_sum (fun p isPower => ?_) _ (List.mem_map_of_mem isLevel)
    obtain ⟨other, -, rfl⟩ := List.mem_map.1 isPower
    exact (power_pos other).le
  rw [total, Scalar.sum_eq, ofPower_eq ((power_mono audible).trans alone), energetic_eq]

end Level

/-! ## Weighing -/

namespace BandSet

/-- The band around one kilohertz, against which the others are weighed. -/
def reference : BandSet → Nat
  | .octave => 4
  | .thirdOctave => 10

theorem reference_lt (bands : BandSet) : bands.reference < bands.size := by
  cases bands <;> decide

theorem aWeighting_reference (bands : BandSet) :
    (bands.aWeighting : List ℝ)[bands.reference]? = some 0 := by
  cases bands <;> rfl

theorem length_aWeighting (bands : BandSet) :
    (bands.aWeighting : List ℝ).length = bands.size := by
  cases bands <;> rfl

end BandSet

namespace Spectrum

variable {bands : BandSet} {s : Spectrum ℝ} {spectra first second : List (Spectrum ℝ)}

/-- The levels of a spectrum as the ear weighs them. -/
noncomputable def weighted (s : Spectrum ℝ) : List ℝ :=
  s.levels.zipWith (· + ·) s.bands.aWeighting

/-- What powers per band come to as the ear weighs them. -/
noncomputable def weightedPower (bands : BandSet) (powers : Nat → ℝ) : ℝ :=
  ((List.range bands.size).map fun i => powers i * levelPower bands.aWeighting i).sum

theorem sum_power_weighted (size : s.levels.length = s.bands.size) :
    (s.weighted.map Level.power).sum = weightedPower s.bands (levelPower s.levels) := by
  have perBand : s.weighted.map Level.power = (List.range s.bands.size).map
      fun i => levelPower s.levels i * levelPower s.bands.aWeighting i := by
    refine List.ext_getElem ?_ fun i bound bound' => ?_
    · simp [weighted, size, BandSet.length_aWeighting]
    · have inRange : i < s.bands.size := by simpa using bound'
      have isLevel : i < s.levels.length := size ▸ inRange
      have isWeight : i < (s.bands.aWeighting : List ℝ).length :=
        s.bands.length_aWeighting ▸ inRange
      simp [weighted, levelPower, List.getElem?_eq_getElem isLevel,
        List.getElem?_eq_getElem isWeight, Level.power_add]
  rw [perBand, weightedPower]

/-- The powers of some spectra may be weighed together or one by one. -/
theorem weightedPower_bandPower (bands : BandSet) (spectra : List (Spectrum ℝ)) :
    weightedPower bands (bandPower spectra)
      = (spectra.map fun s => weightedPower bands (levelPower s.levels)).sum := by
  induction spectra with
  | nil => simp [weightedPower, bandPower]
  | cons s rest ih =>
      rw [List.map_cons, List.sum_cons, ← ih]
      simp only [weightedPower, bandPower, List.map_cons, List.sum_cons, add_mul,
        List.sum_map_add]

/-- The floor does not touch the weighed level of a spectrum that arrives. -/
theorem aWeighted_eq_energetic (arrives : s.Arrives s.bands) :
    s.aWeighted = Level.energetic s.weighted := by
  apply Level.total_eq_energetic
  have inRange : s.bands.reference < s.levels.length := arrives.size ▸ s.bands.reference_lt
  refine ⟨s.levels[s.bands.reference], ?_, arrives.floor _ (List.getElem_mem inRange)⟩
  refine List.mem_of_getElem? (i := s.bands.reference) ?_
  simp [List.getElem?_zipWith, BandSet.aWeighting_reference, inRange]

/-! ## Spectra heard together -/

/-- The levels of some spectra in a band. -/
def levelsAt (spectra : List (Spectrum ℝ)) (i : Nat) : List ℝ :=
  spectra.filterMap fun s => s.levels[i]?

theorem bandPower_eq (spectra : List (Spectrum ℝ)) (i : Nat) :
    bandPower spectra i = ((levelsAt spectra i).map Level.power).sum :=
  (Level.sum_power_filterMap (fun s : Spectrum ℝ => s.levels[i]?) spectra).symm

theorem levelsAt_ne_nil (some : spectra ≠ []) (arrive : ∀ s ∈ spectra, s.Arrives bands) {i : Nat}
    (inRange : i < bands.size) : levelsAt spectra i ≠ [] := by
  obtain ⟨s, isSpectrum⟩ := List.exists_mem_of_ne_nil _ some
  have band : i < s.levels.length := (arrive s isSpectrum).size ▸ inRange
  exact List.ne_nil_of_mem
    (List.mem_filterMap.2 ⟨s, isSpectrum, List.getElem?_eq_getElem band⟩)

theorem energetic_levelsAt (some : spectra ≠ []) (arrive : ∀ s ∈ spectra, s.Arrives bands)
    {i : Nat} (inRange : i < bands.size) :
    Level.ofPower (bandPower spectra i) = Level.energetic (levelsAt spectra i) := by
  rw [Level.ofPower_eq (le_bandPower some arrive inRange), bandPower_eq, Level.energetic_eq]

/-- In every band spectra that arrive are heard as their energetic sum. -/
theorem levels_together_energetic (some : spectra ≠ []) (arrive : ∀ s ∈ spectra, s.Arrives bands) :
    (together bands spectra).levels
      = (List.range bands.size).map fun i => Level.energetic (levelsAt spectra i) := by
  rw [levels_together]
  exact List.map_congr_left fun i inRange =>
    energetic_levelsAt some arrive (List.mem_range.1 inRange)

theorem arrives_together (bands : BandSet) (spectra : List (Spectrum ℝ)) :
    (together bands spectra).Arrives bands := by
  refine ⟨length_together spectra, fun level isLevel => ?_⟩
  rw [levels_together] at isLevel
  obtain ⟨i, -, rfl⟩ := List.mem_map.1 isLevel
  exact Level.silent_le_ofPower _

theorem levelPower_together (some : spectra ≠ []) (arrive : ∀ s ∈ spectra, s.Arrives bands)
    {i : Nat} (inRange : i < bands.size) :
    levelPower (together bands spectra).levels i = bandPower spectra i := by
  rw [levelPower, levels_together]
  simp [inRange, Level.power_ofPower (le_bandPower some arrive inRange)]

/-- The weighed level of what is heard together is the energetic sum of the weighed levels. -/
theorem aWeighted_together (some : spectra ≠ []) (arrive : ∀ s ∈ spectra, s.Arrives bands)
    (same : ∀ s ∈ spectra, s.bands = bands) :
    (together bands spectra).aWeighted = Level.energetic (spectra.map aWeighted) := by
  have whole := arrives_together bands spectra
  have weighed : ∀ s ∈ spectra,
      weightedPower bands (levelPower s.levels) = Level.power s.aWeighted := by
    intro s isSpectrum
    have arrives := arrive s isSpectrum
    rw [← same s isSpectrum] at arrives ⊢
    have heard : s.weighted ≠ [] := by
      rw [Ne, ← List.length_eq_zero_iff, weighted, List.length_zipWith, arrives.size,
        s.bands.length_aWeighting]
      have := s.bands.reference_lt
      omega
    rw [← sum_power_weighted arrives.size, aWeighted_eq_energetic arrives,
      Level.power_energetic heard]
  have power : ((together bands spectra).weighted.map Level.power).sum
      = ((spectra.map aWeighted).map Level.power).sum := calc
    _ = weightedPower bands (levelPower (together bands spectra).levels) :=
      sum_power_weighted whole.size
    _ = weightedPower bands (bandPower spectra) := by
      refine congrArg List.sum (List.map_congr_left fun i inRange => ?_)
      rw [levelPower_together some arrive (List.mem_range.1 inRange)]
    _ = (spectra.map fun s => weightedPower bands (levelPower s.levels)).sum :=
      weightedPower_bandPower bands spectra
    _ = ((spectra.map aWeighted).map Level.power).sum := by
      rw [List.map_map, List.map_congr_left weighed]
      rfl
  rw [aWeighted_eq_energetic whole, Level.energetic_eq, power, Level.energetic_eq]

/-- A spectrum that arrives is heard alone as it is. -/
theorem together_singleton (arrives : s.Arrives s.bands) : together s.bands [s] = s := by
  have levels : (together s.bands [s]).levels = s.levels := by
    rw [levels_together_energetic (List.cons_ne_nil s []) (by simpa using arrives)]
    refine List.ext_getElem (by simp [arrives.size]) fun i _ bound => ?_
    simp [levelsAt, List.getElem?_eq_getElem bound, Level.energetic_singleton]
  exact congrArg (Spectrum.mk s.bands) levels

/-- Copies of a spectrum are as many decibels above it as they are. -/
theorem levels_together_replicate {k : Nat} (several : k ≠ 0) (arrives : s.Arrives s.bands) :
    (together s.bands (List.replicate k s)).levels
      = s.levels.map (· + 10 * Real.logb 10 k) := by
  have arrive : ∀ x ∈ List.replicate k s, x.Arrives s.bands := by
    intro x copy
    rwa [List.eq_of_mem_replicate copy]
  rw [levels_together_energetic (by simpa using several) arrive]
  refine List.ext_getElem (by simp [arrives.size]) fun i _ bound => ?_
  have band : i < s.levels.length := by simpa using bound
  simp [levelsAt, List.filterMap_replicate, List.getElem?_eq_getElem band,
    Level.energetic_replicate several]

section Parts

variable (some : first ≠ []) (some' : second ≠ []) (arrive : ∀ s ∈ first, s.Arrives bands)
  (arrive' : ∀ s ∈ second, s.Arrives bands)

include some some' arrive arrive'

/-- Two parts are heard together as the sum of what is heard of either. -/
theorem together_append :
    together bands (first ++ second) = together bands [together bands first, together bands second]
      := by
  have levels : (together bands (first ++ second)).levels
      = (together bands [together bands first, together bands second]).levels := by
    rw [levels_together, levels_together]
    refine List.map_congr_left fun i isBand => ?_
    have inRange := List.mem_range.1 isBand
    rw [bandPower_append, ← levelPower_together some arrive inRange,
      ← levelPower_together some' arrive' inRange]
    simp [bandPower]
  exact congrArg (Spectrum.mk bands) levels

theorem levels_together_append :
    (together bands (first ++ second)).levels
      = (together bands first).levels.zipWith (fun x y => Level.energetic [x, y])
          (together bands second).levels := by
  rw [levels_together_energetic (List.append_ne_nil_of_left_ne_nil some _)
      (List.forall_mem_append.2 ⟨arrive, arrive'⟩), levels_together_energetic some arrive,
    levels_together_energetic some' arrive', List.zipWith_map, List.zipWith_self]
  refine List.map_congr_left fun i isBand => ?_
  have inRange := List.mem_range.1 isBand
  rw [levelsAt, List.filterMap_append]
  exact Level.energetic_append (levelsAt_ne_nil some arrive inRange)
    (levelsAt_ne_nil some' arrive' inRange)

end Parts

end Spectrum

/-! ## Results -/

namespace Contribution

/-- The contribution was computed in the given bands. -/
def Computed (bands : BandSet) (c : Contribution ℝ) : Prop :=
  ∃ source emission path losses, contribution bands source emission path losses = .ok c

theorem Computed.arrives {bands : BandSet} {c : Contribution ℝ} (computed : c.Computed bands) :
    c.spectrum.bands = bands ∧ c.spectrum.Arrives bands := by
  obtain ⟨source, emission, path, losses, made⟩ := computed
  obtain ⟨-, -, size, rfl⟩ := contribution_eq_ok_iff.1 made
  exact ⟨rfl, Spectrum.arrives_after size⟩

theorem arrive_of_computed {bands : BandSet} {cs : List (Contribution ℝ)}
    (computed : ∀ c ∈ cs, c.Computed bands) :
    (∀ s ∈ cs.map Contribution.spectrum, s.bands = bands) ∧
      ∀ s ∈ cs.map Contribution.spectrum, s.Arrives bands := by
  simp only [List.forall_mem_map]
  exact ⟨fun c isPart => (computed c isPart).arrives.1,
    fun c isPart => (computed c isPart).arrives.2⟩

end Contribution

/-- What contributions of one band set come to at a receiver. -/
noncomputable def resultOf (bands : BandSet) (id : Nat) (position : Point ℝ)
    (cs : List (Contribution ℝ)) : ReceiverResult ℝ :=
  let spectrum := Spectrum.together bands (cs.map Contribution.spectrum)
  ⟨id, position, cs, spectrum, spectrum.aWeighted⟩

section Results

variable {bands : BandSet} (id : Nat) (position : Point ℝ) {cs first second : List (Contribution ℝ)}

theorem aggregate_computed (computed : ∀ c ∈ cs, c.Computed bands) :
    aggregate bands id position cs = .ok (resultOf bands id position cs) :=
  aggregate_eq_ok_iff.2 ⟨fun c isPart => (computed c isPart).arrives.1, rfl⟩

theorem laeq_resultOf (some : cs ≠ []) (computed : ∀ c ∈ cs, c.Computed bands) :
    (resultOf bands id position cs).laeq
      = Level.energetic (cs.map fun c => c.spectrum.aWeighted) := by
  obtain ⟨same, arrive⟩ := Contribution.arrive_of_computed computed
  rw [resultOf, Spectrum.aWeighted_together (by simpa using some) arrive same, List.map_map]
  rfl

theorem resultOf_perm (bands : BandSet) (perm : first.Perm second) :
    (resultOf bands id position first).spectrum = (resultOf bands id position second).spectrum ∧
      (resultOf bands id position first).laeq = (resultOf bands id position second).laeq := by
  have spectrum : (resultOf bands id position first).spectrum
      = (resultOf bands id position second).spectrum := Spectrum.together_perm (perm.map _)
  exact ⟨spectrum, congrArg Spectrum.aWeighted spectrum⟩

theorem resultOf_append (some : first ≠ []) (some' : second ≠ [])
    (computed : ∀ c ∈ first, c.Computed bands) (computed' : ∀ c ∈ second, c.Computed bands) :
    let a := resultOf bands id position first
    let b := resultOf bands id position second
    let whole := resultOf bands id position (first ++ second)
    Spectrum.overlay bands [a.spectrum, b.spectrum] = .ok whole.spectrum ∧
      whole.spectrum.levels
        = a.spectrum.levels.zipWith (fun x y => Level.energetic [x, y]) b.spectrum.levels ∧
      whole.laeq = Level.energetic [a.laeq, b.laeq] := by
  intro a b whole
  obtain ⟨-, arrive⟩ := Contribution.arrive_of_computed computed
  obtain ⟨-, arrive'⟩ := Contribution.arrive_of_computed computed'
  have heard : first.map Contribution.spectrum ≠ [] := by simpa using some
  have heard' : second.map Contribution.spectrum ≠ [] := by simpa using some'
  have parts : whole.spectrum = .together bands
      (first.map Contribution.spectrum ++ second.map Contribution.spectrum) :=
    congrArg (Spectrum.together bands) List.map_append
  refine ⟨?_, ?_, ?_⟩
  · refine Spectrum.overlay_eq_ok_iff.2 ⟨by simp [a, b, resultOf, Spectrum.together], ?_⟩
    exact parts.trans (Spectrum.together_append heard heard' arrive arrive')
  · exact (congrArg Spectrum.levels parts).trans
      (Spectrum.levels_together_append heard heard' arrive arrive')
  · rw [laeq_resultOf id position some computed, laeq_resultOf id position some' computed',
      laeq_resultOf id position (List.append_ne_nil_of_left_ne_nil some _)
        (List.forall_mem_append.2 ⟨computed, computed'⟩), List.map_append]
    exact Level.energetic_append (by simpa using some) (by simpa using some')

theorem resultOf_singleton {c : Contribution ℝ} (computed : c.Computed bands) :
    (resultOf bands id position [c]).spectrum = c.spectrum := by
  obtain ⟨rfl, arrives⟩ := computed.arrives
  exact Spectrum.together_singleton arrives

theorem resultOf_replicate {c : Contribution ℝ} (computed : c.Computed bands) {k : Nat}
    (several : k ≠ 0) :
    (resultOf bands id position (List.replicate k c)).spectrum.levels
        = c.spectrum.levels.map (· + 10 * Real.logb 10 k) ∧
      (resultOf bands id position (List.replicate k c)).laeq
        = c.spectrum.aWeighted + 10 * Real.logb 10 k := by
  have all : ∀ x ∈ List.replicate k c, x.Computed bands := by
    intro x copy
    rwa [List.eq_of_mem_replicate copy]
  constructor
  · obtain ⟨rfl, arrives⟩ := computed.arrives
    simp only [resultOf, List.map_replicate]
    exact Spectrum.levels_together_replicate several arrives
  · rw [laeq_resultOf id position (by simpa using several) all, List.map_replicate,
      Level.energetic_replicate several]

end Results

/-- A result at a receiver is the energetic sum of its contributions, with no floor anywhere:
in every band, and in the level as the ear weighs it, whether the weighing is done before or
after the sum.  Hence it does not depend on the order of the contributions, two parts of them
add up to it, `k` copies of one contribution lie `10 lg k` above it, and one more contribution
lowers nothing. -/
theorem aggregate_energetic (bands : BandSet) (id : Nat) (position : Point ℝ)
    {cs : List (Contribution ℝ)} (some : cs ≠ []) (computed : ∀ c ∈ cs, c.Computed bands) :
    ∃ whole, aggregate bands id position cs = .ok whole ∧
      whole.spectrum.bands = bands ∧
      whole.spectrum.levels = ((List.range bands.size).map fun i =>
        Level.energetic (Spectrum.levelsAt (cs.map Contribution.spectrum) i)) ∧
      whole.laeq = Level.energetic whole.spectrum.weighted ∧
      whole.laeq = Level.energetic (cs.map fun c => c.spectrum.aWeighted) ∧
      (∀ c ∈ cs, c.spectrum.aWeighted = Level.energetic c.spectrum.weighted) ∧
      (∀ shuffled, cs.Perm shuffled → ∃ other,
        aggregate bands id position shuffled = .ok other ∧
        other.spectrum = whole.spectrum ∧ other.laeq = whole.laeq) ∧
      (∀ first second, first ≠ [] → second ≠ [] → cs.Perm (first ++ second) → ∃ a b,
        aggregate bands id position first = .ok a ∧
        aggregate bands id position second = .ok b ∧
        Spectrum.overlay bands [a.spectrum, b.spectrum] = .ok whole.spectrum ∧
        whole.spectrum.levels
          = a.spectrum.levels.zipWith (fun x y => Level.energetic [x, y]) b.spectrum.levels ∧
        whole.laeq = Level.energetic [a.laeq, b.laeq]) ∧
      (∀ k c, cs = List.replicate k c → ∃ one, aggregate bands id position [c] = .ok one ∧
        one.spectrum = c.spectrum ∧
        whole.spectrum.levels = one.spectrum.levels.map (· + 10 * Real.logb 10 k) ∧
        whole.laeq = one.laeq + 10 * Real.logb 10 k) ∧
      (∀ more, cs.Sublist more → (∀ c ∈ more, c.Computed bands) → ∃ louder,
        aggregate bands id position more = .ok louder ∧
        List.Forall₂ (· ≤ ·) whole.spectrum.levels louder.spectrum.levels ∧
        whole.laeq ≤ louder.laeq) := by
  obtain ⟨-, arrive⟩ := Contribution.arrive_of_computed computed
  have heard : cs.map Contribution.spectrum ≠ [] := by simpa using some
  refine ⟨_, aggregate_computed id position computed, rfl,
    Spectrum.levels_together_energetic heard arrive,
    Spectrum.aWeighted_eq_energetic (Spectrum.arrives_together bands _),
    laeq_resultOf id position some computed, ?_, ?_, ?_, ?_, ?_⟩
  · intro c isPart
    obtain ⟨rfl, arrives⟩ := (computed c isPart).arrives
    exact Spectrum.aWeighted_eq_energetic arrives
  · intro shuffled perm
    have computed' : ∀ c ∈ shuffled, c.Computed bands :=
      fun c isPart => computed c (perm.mem_iff.2 isPart)
    exact ⟨_, aggregate_computed id position computed', resultOf_perm id position bands perm.symm⟩
  · intro first second some₁ some₂ perm
    obtain ⟨computed₁, computed₂⟩ := List.forall_mem_append.1
      fun c isPart => computed c (perm.mem_iff.2 isPart)
    obtain ⟨spectrum, laeq⟩ := resultOf_perm id position bands perm
    refine ⟨_, _, aggregate_computed id position computed₁,
      aggregate_computed id position computed₂, ?_⟩
    rw [spectrum, laeq]
    exact resultOf_append id position some₁ some₂ computed₁ computed₂
  · intro k c copies
    subst copies
    have several : k ≠ 0 := by simpa using some
    have isComputed := computed c (List.mem_replicate.2 ⟨several, rfl⟩)
    have alone := resultOf_singleton id position isComputed
    obtain ⟨levels, laeq⟩ :=
      resultOf_replicate id position isComputed several
    refine ⟨_, aggregate_computed id position (List.forall_mem_singleton.2 isComputed), alone,
      ?_, ?_⟩
    · rw [levels, alone]
    · rw [laeq, ← alone]
      rfl
  · intro more part computed'
    have grow : List.Forall₂ (· ≤ ·) (resultOf bands id position cs).spectrum.levels
        (resultOf bands id position more).spectrum.levels :=
      Spectrum.together_mono (part.map Contribution.spectrum)
    exact ⟨_, aggregate_computed id position computed', grow, Spectrum.aWeighted_mono rfl grow⟩

/-! ## Two copies -/

/-- A loss of `x` dB in every octave, whatever the weather. -/
noncomputable def flatLosses (x : ℝ) : Losses ℝ :=
  ⟨.octave, List.replicate 8 ⟨x, 0, 0, 0, 0, 0, 0⟩, 0⟩

/-- What `hum` brings over a path that loses 30 dB. -/
noncomputable def humming : Contribution ℝ where
  source := 0
  path := ⟨.direct, [], 2.0, 2.0, none, ⟨1, 1, [], none⟩⟩
  losses := flatLosses 30.0
  spectrum := ⟨.octave, hum.spectrum.after (flatLosses 30.0)⟩

theorem humming_computed : humming.Computed .octave := by
  refine ⟨0, hum.spectrum, humming.path, flatLosses 30.0,
    contribution_eq_ok_iff.2 ⟨rfl, rfl, ?_, rfl⟩⟩
  simp [Spectrum.after, hum, Spectrum.uniform, Losses.total, flatLosses, BandSet.size]

/-- Twice the hum is as loud as two of one level, as the ear weighs it. -/
theorem humming_twice : ∃ one whole, aggregate .octave 7 ⟨2, 0, 1⟩ [humming] = .ok one ∧
    aggregate .octave 7 ⟨2, 0, 1⟩ [humming, humming] = .ok whole ∧
    whole.laeq = one.laeq + 10 * Real.logb 10 2 := by
  have computed : ∀ c ∈ [humming, humming], c.Computed .octave := by
    simpa using humming_computed
  obtain ⟨whole, evaluates, -, -, -, -, -, -, -, copies, -⟩ :=
    aggregate_energetic .octave 7 ⟨2, 0, 1⟩ (List.cons_ne_nil _ _) computed
  obtain ⟨one, evaluates', -, -, above⟩ := copies 2 humming rfl
  exact ⟨one, whole, evaluates', evaluates, by simpa using above⟩

end RoadNoise
