/-
# RoadNoise.Proofs.Discretized -- a row of sources instead of a road

Where a road runs straight it is cut into equal parts, and the power of a part is put into
its middle.  So the sources of a road have the power of the whole road in every band
(`LineSource.bandPower_sources`), however the pieces and the step divide each other.

How far apart they are is measured along the axis.  The sources of one piece are a part
apart, which is at most a step, and half a part from its ends (`row_middles`).  Rows that
follow each other make one row (`Row.append`): where they meet, two halves come together,
and a piece without length adds nothing to either side.
-/
import RoadNoise.Proofs.Energetic
import RoadNoise.Proofs.Graded
import RoadNoise.Survey

set_option autoImplicit false

namespace RoadNoise

/-! ## Places along a way -/

/-- A place lies above or below a way, as many metres from its start as measured along its
horizontal projection. -/
inductive Polyline.PassesAt (place : Point ℝ) : List (Point ℝ) → ℝ → Prop where
  | leg {a b : Point ℝ} {rest : List (Point ℝ)} {t : ℝ} (start : 0 ≤ t) (stop : t ≤ 1)
      (above : place.Above (.between a b t)) :
      PassesAt place (a :: b :: rest) (t * a.planarDistance b)
  | later {a b : Point ℝ} {rest : List (Point ℝ)} {run : ℝ}
      (passes : PassesAt place (b :: rest) run) :
      PassesAt place (a :: b :: rest) (a.planarDistance b + run)

/-! ## Rows of marks -/

/-- Two marks follow each other, no more than a step apart. -/
def Follows (step x y : ℝ) : Prop := x < y ∧ y ≤ x + step

/-- Marks between `start` and `stop`, no more than a step apart and no more than half a step
from either end.  Only where there is nothing to mark there need not be any. -/
structure Row (step start stop : ℝ) (marks : List ℝ) : Prop where
  spaced : marks.IsChain (Follows step)
  first : ∀ x ∈ marks.head?, start < x ∧ x ≤ start + step / 2
  last : ∀ x ∈ marks.getLast?, x < stop ∧ stop ≤ x + step / 2
  ends : marks = [] → start = stop

namespace Row

variable {step start middle stop : ℝ} {marks more : List ℝ}

theorem nil (step start : ℝ) : Row step start start [] := by
  constructor <;> simp

theorem append (row : Row step start middle marks) (row' : Row step middle stop more) :
    Row step start stop (marks ++ more) := by
  rcases eq_or_ne marks [] with rfl | some
  · rwa [row.ends rfl, List.nil_append]
  rcases eq_or_ne more [] with rfl | some'
  · rwa [← row'.ends rfl, List.append_nil]
  constructor
  · refine row.spaced.append row'.spaced fun x isLast y isFirst => ?_
    obtain ⟨before, near⟩ := row.last x isLast
    obtain ⟨after, near'⟩ := row'.first y isFirst
    exact ⟨before.trans after, by linarith⟩
  · rw [List.head?_append_of_ne_nil _ some]
    exact row.first
  · rw [List.getLast?_append_of_ne_nil _ some']
    exact row'.last
  · simp [some]

theorem shift (d : ℝ) (row : Row step start stop marks) :
    Row step (d + start) (d + stop) (marks.map (d + ·)) := by
  constructor
  · refine (List.isChain_map _).2 (row.spaced.imp fun x y follows => ?_)
    exact ⟨by linarith [follows.1], by linarith [follows.2]⟩
  · intro x isFirst
    rw [List.head?_map] at isFirst
    obtain ⟨y, isFirst', rfl⟩ := Option.map_eq_some_iff.1 isFirst
    obtain ⟨after, near⟩ := row.first y isFirst'
    exact ⟨by linarith, by linarith⟩
  · intro x isLast
    rw [List.getLast?_map] at isLast
    obtain ⟨y, isLast', rfl⟩ := Option.map_eq_some_iff.1 isLast
    obtain ⟨before, near⟩ := row.last y isLast'
    exact ⟨by linarith, by linarith⟩
  · intro none
    rw [row.ends (List.map_eq_nil_iff.1 none)]

end Row

/-! ## One piece -/

variable {length step : ℝ}

/-- The middles of `n` equal parts of a length. -/
noncomputable def middles (length : ℝ) (n : Nat) : List ℝ :=
  (List.range n).map fun k : Nat => (k + 0.5) / n * length

/-- There is a part, and no part is longer than a step. -/
theorem partCount_spec (long : 0 < length) (forward : 0 < step) :
    partCount length step ≠ 0 ∧ length ≤ partCount length step * step := by
  have count : partCount length step = ⌊max ((⌈length / step⌉ : ℤ) : ℝ) 1⌋₊ := rfl
  have one : 1 ≤ partCount length step := by
    rw [count]
    exact Nat.le_floor (by simp)
  have whole : ⌈length / step⌉.toNat ≤ partCount length step := by
    rw [count]
    refine Nat.le_floor (le_max_of_le_left ?_)
    have positive : 0 ≤ ⌈length / step⌉ := Int.ceil_nonneg (div_pos long forward).le
    exact_mod_cast (Int.toNat_of_nonneg positive).le
  refine ⟨by omega, (div_le_iff₀ forward).1 ?_⟩
  calc length / step ≤ ((⌈length / step⌉ : ℤ) : ℝ) := Int.le_ceil _
    _ ≤ (⌈length / step⌉.toNat : ℝ) := by exact_mod_cast Int.self_le_toNat _
    _ ≤ partCount length step := by exact_mod_cast whole

theorem row_middles (long : 0 < length) {n : Nat} (some : n ≠ 0) (fine : length ≤ n * step) :
    Row step 0 length (middles length n) := by
  have count : (0 : ℝ) < n := by exact_mod_cast Nat.pos_of_ne_zero some
  have part : 0 < length / n := div_pos long count
  have short : length / n ≤ step := (div_le_iff₀' count).2 fine
  have middle (k : ℝ) : (k + 0.5) / n * length = (k + 1 / 2) * (length / n) := by ring
  constructor
  · refine (List.isChain_map _).2 ((List.isChain_range _ _).2 fun k _ => ?_)
    rw [Follows, middle, middle, Nat.cast_succ]
    constructor <;> linarith
  · intro x isFirst
    rw [middles, List.head?_map, List.head?_range, if_neg some] at isFirst
    obtain rfl := Option.some.inj isFirst
    beta_reduce
    rw [middle, Nat.cast_zero]
    constructor <;> linarith
  · intro x isLast
    rw [middles, List.getLast?_map, List.getLast?_range, if_neg some] at isLast
    obtain rfl := Option.some.inj isLast
    have all : length = n * (length / n) := (mul_div_cancel₀ _ count.ne').symm
    beta_reduce
    rw [middle, Nat.cast_pred (Nat.pos_of_ne_zero some)]
    constructor <;> linarith
  · simp [middles, some]

namespace LineSource

variable {l : LineSource ℝ} {ground : ℝ → ℝ → ℝ} {p q : Point ℝ}

theorem pieceSources_of_flat (flat : p.planarDistance q = 0) :
    l.pieceSources ground step p q = [] := by
  simp [pieceSources, flat]

/-- The source in the middle of part `k` of `n` of a piece. -/
def partSource {α : Type} [Scalar α] (l : LineSource α) (ground : α → α → α) (p q : Point α)
    (n k : Nat) : PointSource α :=
  let m := Point.between p q ((Scalar.ofNat k + 0.5) / Scalar.ofNat n)
  ⟨m.raisedTo (ground m.x m.y + l.height),
    l.spectrum.offset (10 * Scalar.log10 (p.planarDistance q / Scalar.ofNat n))⟩

theorem pieceSources_of_long (long : 0 < p.planarDistance q) :
    l.pieceSources ground step p q = (List.range (partCount (p.planarDistance q) step)).map
      (l.partSource ground p q (partCount (p.planarDistance q) step)) := by
  rw [pieceSources, if_neg (not_le.2 long)]
  rfl

/-- The source stands over the way, `l.height` above the ground. -/
def Stands (l : LineSource ℝ) (ground : ℝ → ℝ → ℝ) (way : List (Point ℝ)) (run : ℝ)
    (source : PointSource ℝ) : Prop :=
  Polyline.PassesAt source.position way run ∧
    source.position.z = ground source.position.x source.position.y + l.height

/-- The sources of a piece stand in a row over it. -/
theorem row_pieceSources (l : LineSource ℝ) (ground : ℝ → ℝ → ℝ) (forward : 0 < step)
    (p q : Point ℝ) (rest : List (Point ℝ)) : ∃ runs,
      Row step 0 (p.planarDistance q) runs ∧
      List.Forall₂ (l.Stands ground (p :: q :: rest)) runs (l.pieceSources ground step p q) := by
  rcases (p.planarDistance_nonneg q).eq_or_lt with flat | long
  · rw [pieceSources_of_flat flat.symm, ← flat]
    exact ⟨[], .nil step 0, .nil⟩
  · obtain ⟨some, fine⟩ := partCount_spec long forward
    refine ⟨_, row_middles long some fine, ?_⟩
    rw [pieceSources_of_long long, middles, List.forall₂_map_left_iff, List.forall₂_map_right_iff,
      List.forall₂_same]
    intro k inRange
    have last : (k : ℝ) + 1 ≤ partCount (p.planarDistance q) step := by
      exact_mod_cast List.mem_range.1 inRange
    have start : (0 : ℝ) ≤ (k + 0.5) / partCount (p.planarDistance q) step := by positivity
    have stop : ((k : ℝ) + 0.5) / partCount (p.planarDistance q) step ≤ 1 := by
      refine div_le_one_of_le₀ ?_ (Nat.cast_nonneg _)
      linarith
    exact ⟨.leg start stop (.refl _), rfl⟩

/-- A part has its share of the power of a piece. -/
theorem power_part {length : ℝ} (long : 0 < length) {n : Nat} (some : n ≠ 0) (level : ℝ) :
    n * Level.power (level + 10 * Real.logb 10 (length / n)) = length * Level.power level := by
  have count : (0 : ℝ) < n := by exact_mod_cast Nat.pos_of_ne_zero some
  rw [Level.power_add, Level.power_logb (div_pos long count)]
  field_simp

/-- The sources of a piece have the power of the piece. -/
theorem bandPower_pieceSources (forward : 0 < step) {i : Nat} {level : ℝ}
    (band : l.spectrum.levels[i]? = some level) :
    Spectrum.bandPower ((l.pieceSources ground step p q).map PointSource.spectrum) i
      = p.planarDistance q * Level.power level := by
  rcases (p.planarDistance_nonneg q).eq_or_lt with flat | long
  · rw [pieceSources_of_flat flat.symm, ← flat, zero_mul]
    rfl
  · obtain ⟨some, -⟩ := partCount_spec long forward
    rw [pieceSources_of_long long, ← power_part long some level]
    simp [Spectrum.bandPower, partSource, Spectrum.offset, levelPower, band, Function.comp_def]

/-! ## The whole road -/

theorem sources_cons_cons (p q : Point ℝ) (rest : List (Point ℝ)) (spectrum : Spectrum ℝ)
    (height : ℝ) (ground : ℝ → ℝ → ℝ) (step : ℝ) :
    (LineSource.mk (p :: q :: rest) spectrum height).sources ground step
      = (LineSource.mk (p :: q :: rest) spectrum height).pieceSources ground step p q
        ++ (LineSource.mk (q :: rest) spectrum height).sources ground step := by
  rw [sources, Sequence.adjacent_cons_cons, List.flatMap_cons]
  rfl

theorem length_cons_cons (p q : Point ℝ) (rest : List (Point ℝ)) (spectrum : Spectrum ℝ)
    (height : ℝ) : (LineSource.mk (p :: q :: rest) spectrum height).length
      = p.planarDistance q + (LineSource.mk (q :: rest) spectrum height).length :=
  Polyline.planarLength_cons_cons p q rest

/-- A source has the spectrum of the road, up or down as a whole. -/
theorem spectrum_of_mem_sources {source : PointSource ℝ}
    (isSource : source ∈ l.sources ground step) : ∃ d, source.spectrum = l.spectrum.offset d := by
  obtain ⟨⟨p, q⟩, -, isSource⟩ := List.mem_flatMap.1 isSource
  change source ∈ l.pieceSources ground step p q at isSource
  rw [pieceSources] at isSource
  split at isSource
  · exact absurd isSource List.not_mem_nil
  · obtain ⟨k, -, rfl⟩ := List.mem_map.1 isSource
    exact ⟨_, rfl⟩

/-- The sources of a road have the power of the road. -/
theorem bandPower_sources (l : LineSource ℝ) (ground : ℝ → ℝ → ℝ) (forward : 0 < step) {i : Nat}
    {level : ℝ} (band : l.spectrum.levels[i]? = some level) :
    Spectrum.bandPower ((l.sources ground step).map PointSource.spectrum) i
      = l.length * Level.power level := by
  obtain ⟨axis, spectrum, height⟩ := l
  induction axis with
  | nil => simp [sources, length, Polyline.planarLength, Sequence.adjacent, Spectrum.bandPower]
  | cons p rest ih =>
      cases rest with
      | nil => simp [sources, length, Sequence.adjacent, Spectrum.bandPower]
      | cons q rest =>
          rw [sources_cons_cons, List.map_append, Spectrum.bandPower_append,
            bandPower_pieceSources forward band, ih band, length_cons_cons, add_mul]

/-- The sources of a road stand in a row over its axis. -/
theorem row_sources (l : LineSource ℝ) (ground : ℝ → ℝ → ℝ) (forward : 0 < step) : ∃ runs,
    Row step 0 l.length runs ∧
      List.Forall₂ (l.Stands ground l.axis) runs (l.sources ground step) := by
  obtain ⟨axis, spectrum, height⟩ := l
  induction axis with
  | nil =>
      refine ⟨[], ?_, .nil⟩
      simpa [length, Polyline.planarLength, Sequence.adjacent] using Row.nil step 0
  | cons p rest ih =>
      cases rest with
      | nil =>
          refine ⟨[], ?_, .nil⟩
          simpa [length] using Row.nil step 0
      | cons q rest =>
          obtain ⟨later, row', stand'⟩ := ih
          obtain ⟨runs, row, stand⟩ :=
            row_pieceSources ⟨p :: q :: rest, spectrum, height⟩ ground forward p q rest
          refine ⟨runs ++ later.map (p.planarDistance q + ·), ?_, ?_⟩
          · have whole := row.append (by simpa using row'.shift (p.planarDistance q))
            rwa [length_cons_cons]
          · rw [sources_cons_cons]
            refine List.rel_append stand ?_
            rw [List.forall₂_map_left_iff]
            exact stand'.imp fun _ _ stands => ⟨.later stands.1, stands.2⟩

theorem hasLength_of_pos (long : 0 < l.length) : l.hasLength = true := by
  by_contra flat
  have noLegs : ∀ p q, (p, q) ∈ Sequence.adjacent l.axis → p.planarDistance q ≤ 0 := by
    simpa [hasLength] using flat
  have sum : l.length = 0 := by
    rw [length, Polyline.planarLength, Scalar.sum_eq]
    refine List.sum_eq_zero fun x leg => ?_
    obtain ⟨⟨p, q⟩, isLeg, rfl⟩ := List.mem_map.1 leg
    exact (noLegs p q isLeg).antisymm (p.planarDistance_nonneg q)
  exact long.ne' sum

end LineSource

namespace Survey

/-- A road with a length is always answered with its sources. -/
theorem ask_sources (s : Scene ℝ) {l : LineSource ℝ} (long : 0 < l.length) {step : ℝ}
    (forward : 0 < step) :
    (Survey.scene s).ask (.sources l step) = .ok (.sources (l.sources s.elevation step)) := by
  have accepted : LineSource.checkStep step = .ok () :=
    demand_eq_ok_iff.2 (by simpa [Rule.admits] using forward)
  have finished : (Survey.scene s).site.ensureFinished = .ok () := rfl
  refine check_bind_eq_ok_iff.2 ⟨accepted, ?_⟩
  rw [LineSource.hasLength_of_pos long, if_pos rfl, finished]
  rfl

/-- The sources of a road have its power in every band, whatever its pieces and the step.
Measured along the axis they follow each other no more than a step apart, the first and the
last of them no more than half a step from the ends, and each stands at the height of the
source over the ground. -/
theorem sources_discretize (s : Scene ℝ) (l : LineSource ℝ) (long : 0 < l.length) {step : ℝ}
    (forward : 0 < step) :
    ∃ sources, (Survey.scene s).ask (.sources l step) = .ok (.sources sources) ∧
      (∀ source ∈ sources, source.spectrum.bands = l.spectrum.bands ∧
        source.spectrum.levels.length = l.spectrum.levels.length) ∧
      (∀ i level, l.spectrum.levels[i]? = some level →
        Spectrum.bandPower (sources.map PointSource.spectrum) i
          = l.length * Level.power level) ∧
      ∃ runs, List.Forall₂ (l.Stands s.elevation l.axis) runs sources ∧
        runs.IsChain (Follows step) ∧
        (∃ first ∈ runs.head?, 0 < first ∧ first ≤ step / 2) ∧
        ∃ last ∈ runs.getLast?, last < l.length ∧ l.length ≤ last + step / 2 := by
  obtain ⟨runs, row, stand⟩ := l.row_sources s.elevation forward
  have some : runs ≠ [] := fun none => long.ne (row.ends none)
  have isFirst := List.head?_eq_some_head some
  have isLast := List.getLast?_eq_some_getLast some
  refine ⟨_, ask_sources s long forward, fun source isSource => ?_,
    fun i level band => l.bandPower_sources s.elevation forward band,
    runs, stand, row.spaced, ⟨_, isFirst, ?_⟩, ⟨_, isLast, row.last _ isLast⟩⟩
  · obtain ⟨d, spectrum⟩ := LineSource.spectrum_of_mem_sources isSource
    simp [spectrum, Spectrum.offset]
  · simpa using row.first _ isFirst

/-- A road around a corner, at 60 dB per metre. -/
noncomputable def cornerRoad : LineSource ℝ where
  axis := [⟨0, 0, 0⟩, ⟨25.0, 0, 0⟩, ⟨25.0, 10.0, 0⟩]
  spectrum := .uniform .octave 60.0
  height := 0.05

theorem cornerRoad_length : cornerRoad.length = 35 := by
  have first : (⟨0, 0, 0⟩ : Point ℝ).planarDistance ⟨25.0, 0, 0⟩ = 25 := by
    rw [Point.planarDistance_eq, Real.sqrt_eq_iff_mul_self_eq_of_pos (by norm_num)]
    norm_num
  have second : (⟨25.0, 0, 0⟩ : Point ℝ).planarDistance ⟨25.0, 10.0, 0⟩ = 10 := by
    rw [Point.planarDistance_eq, Real.sqrt_eq_iff_mul_self_eq_of_pos (by norm_num)]
    norm_num
  simp only [LineSource.length, cornerRoad, Polyline.planarLength_cons_cons, first, second,
    Polyline.planarLength_singleton]
  norm_num

/-- Cut at steps of ten metres it has the power of its 35 metres in the first octave. -/
theorem cornerRoad_discretized : ∃ sources,
    (Survey.scene (Draft.empty : Draft ℝ).finish).ask (.sources cornerRoad 10)
      = .ok (.sources sources) ∧
    Spectrum.bandPower (sources.map PointSource.spectrum) 0 = 35 * Level.power 60 := by
  obtain ⟨sources, answered, -, power, -⟩ := sources_discretize (Draft.empty : Draft ℝ).finish
    cornerRoad (by rw [cornerRoad_length]; norm_num) (by norm_num : (0 : ℝ) < 10)
  refine ⟨sources, answered, ?_⟩
  rw [power 0 60.0 rfl, cornerRoad_length]
  norm_num

end Survey

end RoadNoise
