/-
# RoadNoise.Proofs.Received -- what reaches a receiver

Evaluating a receiver checks the ends of every path, the path itself, and the bands and
the number of levels of everything that is added up.  In a runner whose parts passed
their own checks (`Runner.Sound`) only two things can still go wrong, and both are up to
the sources within range: one may lie at the receiver's own place, or have no level for
some band of the batch.  Otherwise the receiver gets what all paths contribute
(`Runner.evaluate_eq_ok_iff`).
-/
import RoadNoise.Proofs.Built
import RoadNoise.Proofs.Drafts
import RoadNoise.Proofs.Losses
import RoadNoise.Proofs.Ways

set_option autoImplicit false

namespace RoadNoise

/-! ## Spectra -/

namespace Spectrum

/-- The spectrum is of the band set and has a level for each of its bands. -/
def Serves (s : Spectrum ℝ) (bands : BandSet) : Prop :=
  s.bands = bands ∧ bands.size ≤ s.levels.length

/-- The powers of spectra on top of some powers. -/
noncomputable def addedTo (powers : List ℝ) (spectra : List (Spectrum ℝ)) : List ℝ :=
  spectra.foldl (fun sum s => addPowers sum s.levels) powers

/-- Spectra heard together. -/
noncomputable def together (bands : BandSet) (spectra : List (Spectrum ℝ)) : Spectrum ℝ :=
  ⟨bands, (addedTo (List.replicate bands.size 0) spectra).map Level.ofPower⟩

variable {bands : BandSet}

theorem ensure_eq_ok_iff {α : Type} {s : Spectrum α} {u : Unit} :
    s.ensure bands = .ok u ↔ s.bands = bands := by
  simp [ensure, require_eq_ok_iff]

theorem ofLevels_eq_ok_iff {levels : List ℝ} {s : Spectrum ℝ} :
    ofLevels bands levels = .ok s ↔ levels.length = bands.size ∧ s = ⟨bands, levels⟩ := by
  have finite : levels.find? (fun l => !Scalar.isFinite l) = none := by simp
  rw [ofLevels, check_bind_eq_ok_iff, finite]
  simp [require_eq_ok_iff, pure, Except.pure, @eq_comm _ s]

theorem length_addedTo (powers : List ℝ) (spectra : List (Spectrum ℝ)) :
    (addedTo powers spectra).length = powers.length := by
  induction spectra generalizing powers with
  | nil => rfl
  | cons s spectra ih =>
      rw [addedTo, List.foldl_cons, ← addedTo, ih]
      simp only [addPowers, List.length_append, List.length_zipWith, List.length_drop]
      omega

theorem length_together (spectra : List (Spectrum ℝ)) :
    (together bands spectra).levels.length = bands.size := by
  simp [together, length_addedTo]

theorem addAll_eq_ok_iff {powers added : List ℝ} {spectra : List (Spectrum ℝ)} :
    addAll bands powers spectra = .ok added ↔
      (∀ s ∈ spectra, s.bands = bands) ∧ added = addedTo powers spectra := by
  induction spectra generalizing powers with
  | nil => simp [addAll, addedTo, pure, Except.pure, eq_comm]
  | cons s spectra ih =>
      rw [addAll, check_bind_eq_ok_iff, ensure_eq_ok_iff, ih, List.forall_mem_cons, and_assoc]
      rfl

theorem overlay_eq_ok_iff {spectra : List (Spectrum ℝ)} {s : Spectrum ℝ} :
    overlay bands spectra = .ok s ↔
      (∀ x ∈ spectra, x.bands = bands) ∧ s = together bands spectra := by
  simp only [overlay, powers, bind_eq_ok_iff, addAll_eq_ok_iff, ofLevels_eq_ok_iff]
  constructor
  · rintro ⟨_, ⟨same, rfl⟩, -, rfl⟩
    exact ⟨same, rfl⟩
  · rintro ⟨same, rfl⟩
    exact ⟨_, ⟨same, rfl⟩, length_together spectra, rfl⟩

/-- The levels that are left after losses, none below silence. -/
noncomputable def after (s : Spectrum ℝ) (losses : Losses ℝ) : List ℝ :=
  s.levels.zipWith (fun l loss => max (l - loss) Level.silent) losses.total

end Spectrum

/-! ## Contributions -/

theorem contribution_eq_ok_iff {bands : BandSet} {source : Nat} {emission : Spectrum ℝ}
    {path : Path ℝ} {losses : Losses ℝ} {made : Contribution ℝ} :
    contribution bands source emission path losses = .ok made ↔
      emission.bands = bands ∧ losses.bands = bands ∧
        (emission.after losses).length = bands.size ∧
        made = ⟨source, path, losses, ⟨bands, emission.after losses⟩⟩ := by
  rw [contribution, check_bind_eq_ok_iff, Spectrum.ensure_eq_ok_iff, check_bind_eq_ok_iff,
    require_eq_ok_iff, decide_eq_true_eq]
  simp only [bind_eq_ok_iff, Spectrum.ofLevels_eq_ok_iff]
  refine and_congr_right fun _ => and_congr_right fun _ => ?_
  constructor
  · rintro ⟨_, ⟨size, rfl⟩, made⟩
    exact ⟨size, (Except.ok.inj made).symm⟩
  · rintro ⟨size, rfl⟩
    exact ⟨_, ⟨size, rfl⟩, rfl⟩

/-- No contribution is louder than its source less the least loss. -/
theorem le_of_contribution {bands : BandSet} {source : Nat} {emission : Spectrum ℝ}
    {path : Path ℝ} {losses : Losses ℝ} {made : Contribution ℝ} {least : ℝ}
    (computed : contribution bands source emission path losses = .ok made)
    (loses : ∀ x ∈ losses.total, least ≤ x) {i : Nat} {level : ℝ}
    (band : made.spectrum.levels[i]? = some level) :
    ∃ emitted, emission.levels[i]? = some emitted ∧
      level ≤ max (emitted - least) Level.silent := by
  obtain ⟨-, -, -, rfl⟩ := contribution_eq_ok_iff.1 computed
  rw [Spectrum.after, List.getElem?_zipWith] at band
  split at band
  · rename_i emitted loss isEmitted isLoss
    obtain rfl := Option.some.inj band
    have least := loses loss (List.mem_of_getElem? isLoss)
    exact ⟨emitted, isEmitted, max_le_max_right _ (by linarith)⟩
  · simp at band

theorem aggregate_eq_ok_iff {bands : BandSet} {id : Nat} {position : Point ℝ}
    {contributions : List (Contribution ℝ)} {result : ReceiverResult ℝ} :
    aggregate bands id position contributions = .ok result ↔
      (∀ c ∈ contributions, c.spectrum.bands = bands) ∧
        result = ⟨id, position, contributions,
          Spectrum.together bands (contributions.map Contribution.spectrum),
          (Spectrum.together bands (contributions.map Contribution.spectrum)).aWeighted⟩ := by
  simp only [aggregate, bind_eq_ok_iff, Spectrum.overlay_eq_ok_iff, List.forall_mem_map]
  constructor
  · rintro ⟨_, ⟨same, rfl⟩, made⟩
    exact ⟨same, (Except.ok.inj made).symm⟩
  · rintro ⟨same, rfl⟩
    exact ⟨_, ⟨same, rfl⟩, rfl⟩

/-! ## Ends -/

theorem PathOptions.check_eq_ok_iff {o : PathOptions ℝ} {source receiver : Point ℝ} {u : Unit} :
    o.check source receiver = .ok u ↔ Scalar.eps ≤ source.distance receiver ∧
      ∀ g, o.sourceFactor = some g → 0 ≤ g ∧ g ≤ 1 := by
  unfold check
  cases o.sourceFactor <;>
    simp [check_bind_eq_ok_iff, require_eq_ok_iff, Point.isFinite, Draft.unitInterval_iff, pure,
      Except.pure]

theorem Scene.findPaths_eq_ok_iff {s : Scene ℝ} {source receiver : Point ℝ} {o : PathOptions ℝ}
    {paths : List (Path ℝ)} : s.findPaths source receiver o = .ok paths ↔
      (Scalar.eps ≤ source.distance receiver ∧ ∀ g, o.sourceFactor = some g → 0 ≤ g ∧ g ≤ 1) ∧
        paths = s.paths source receiver o := by
  rw [findPaths, check_bind_eq_ok_iff, PathOptions.check_eq_ok_iff]
  exact and_congr_right fun _ => ⟨fun made => (Except.ok.inj made).symm, fun made => made ▸ rfl⟩

/-- What is said of a source at the receiver's own place. -/
def coincident : Fault ℝ := .invalid (.stated "source and receiver are at the same position")

/-- There is no other fault in ends, for options with a sound factor. -/
theorem Scene.eq_coincident_of_findPaths {s : Scene ℝ} {source receiver : Point ℝ}
    {o : PathOptions ℝ} {fault : Fault ℝ} (factor : ∀ g, o.sourceFactor = some g → 0 ≤ g ∧ g ≤ 1)
    (refused : s.findPaths source receiver o = .error fault) : fault = coincident := by
  rw [findPaths, bind_eq_error_iff] at refused
  obtain refused | ⟨_, -, made⟩ := refused
  · rw [PathOptions.check, bind_eq_error_iff] at refused
    obtain infinite | ⟨_, -, refused⟩ := refused
    · simp [require_eq_error_iff, Point.isFinite] at infinite
    · obtain near | ⟨_, -, refused⟩ := bind_eq_error_iff.1 refused
      · exact (require_eq_error_iff.1 near).2
      · split at refused
        · rename_i g given
          rw [(Draft.unitInterval_iff (u := ())).2 (factor g given)] at refused
          simp at refused
        · simp [pure, Except.pure] at refused
  · simp [pure, Except.pure] at made

/-! ## Runners -/

namespace Runner

/-- What the checks of settings, walls and air leave to rely on. -/
structure Sound (r : Runner ℝ) : Prop where
  calculator : r.calculator.Sound
  bands : r.calculator.bands = r.settings.bands
  walls : ∀ wall ∈ r.scene.walls, 0 ≤ wall.absorption
  sourceFactor : ∀ g, r.settings.options.sourceFactor = some g → 0 ≤ g ∧ g ≤ 1

/-- Runners are sound as they are made. -/
theorem sound_of_ofScene {d : Draft ℝ} (made : d.Made) {s : Settings ℝ} {r : Runner ℝ}
    (built : Runner.ofScene s (.ok d.finish) = .ok r) : r.Sound := by
  obtain ⟨checked, c, calculates, rfl⟩ := ofScene_eq_ok_iff.1 built
  exact
    { calculator := (Settings.built_of_calculator calculates).sound
      bands := by rw [((Settings.calculator_eq_ok_iff checked).1 calculates).2]
      walls := fun wall isWall => (made.sound.wall_absorption isWall).1
      sourceFactor := fun g given => by
        simpa [Rule.admits] using checked.sourceFactor g given }

/-- The source counts for the receiver. -/
def InRange (r : Runner ℝ) (receiver : Receiver ℝ) (source : PointSource ℝ) : Prop :=
  source.position.distance receiver.position ≤ r.settings.maxSourceDistance

/-- The source is out of range, or it lies apart from the receiver and has a level for
every band. -/
def Audible (r : Runner ℝ) (receiver : Receiver ℝ) (source : PointSource ℝ) : Prop :=
  r.InRange receiver source →
    Scalar.eps ≤ source.position.distance receiver.position ∧
      source.spectrum.Serves r.settings.bands

/-- Some source in range lies at the receiver's own place. -/
def Crowded (r : Runner ℝ) (sources : List (PointSource ℝ)) (receiver : Receiver ℝ) : Prop :=
  ∃ source ∈ sources, r.InRange receiver source ∧
    source.position.distance receiver.position < Scalar.eps

theorem crowded_iff {r : Runner ℝ} {receiver : Receiver ℝ} {sources : List (PointSource ℝ)}
    (serve : ∀ source ∈ sources, source.spectrum.Serves r.settings.bands) :
    r.Crowded sources receiver ↔ ¬∀ source ∈ sources, r.Audible receiver source := by
  push Not
  refine exists_congr fun source => and_congr_right fun isSource => ?_
  simp [Audible, serve source isSource]

/-- What a path contributes. -/
noncomputable def heard (r : Runner ℝ) (place : Nat) (source : PointSource ℝ) (path : Path ℝ) :
    Contribution ℝ :=
  ⟨place, path, r.calculator.losses path,
    ⟨r.settings.bands, source.spectrum.after (r.calculator.losses path)⟩⟩

/-- What a source contributes. -/
noncomputable def heardFrom (r : Runner ℝ) (receiver : Receiver ℝ) (place : Nat)
    (source : PointSource ℝ) : List (Contribution ℝ) :=
  if r.settings.maxSourceDistance < source.position.distance receiver.position then []
  else (r.scene.paths source.position receiver.position r.settings.options).map
    (r.heard place source)

/-- What sources contribute, in their order. -/
noncomputable def heardAt (r : Runner ℝ) (receiver : Receiver ℝ) (place : Nat)
    (sources : List (PointSource ℝ)) : List (Contribution ℝ) :=
  (sources.zipIdx place).flatMap fun e => r.heardFrom receiver e.2 e.1

theorem bands_of_mem_heardAt {r : Runner ℝ} {receiver : Receiver ℝ} {place : Nat}
    {sources : List (PointSource ℝ)} {c : Contribution ℝ}
    (isHeard : c ∈ r.heardAt receiver place sources) : c.spectrum.bands = r.settings.bands := by
  obtain ⟨⟨source, position⟩, -, isHeard⟩ := List.mem_flatMap.1 isHeard
  rw [heardFrom] at isHeard
  split at isHeard
  · exact absurd isHeard List.not_mem_nil
  · obtain ⟨path, -, rfl⟩ := List.mem_map.1 isHeard
    rfl

/-- The levels at a receiver from all that is contributed. -/
noncomputable def received (r : Runner ℝ) (sources : List (PointSource ℝ))
    (receiver : Receiver ℝ) : ReceiverResult ℝ :=
  let contributions := r.heardAt receiver 0 sources
  let spectrum := Spectrum.together r.settings.bands (contributions.map Contribution.spectrum)
  ⟨receiver.id, receiver.position, contributions, spectrum, spectrum.aWeighted⟩

theorem bands_received (r : Runner ℝ) (sources : List (PointSource ℝ)) (receiver : Receiver ℝ) :
    (r.received sources receiver).spectrum.bands = r.settings.bands := rfl

section

variable {r : Runner ℝ} (sound : r.Sound) {receiver : Receiver ℝ} {source : PointSource ℝ}
  {place : Nat}
include sound

/-- Whatever path is found can be scored. -/
theorem score_eq_ok {p q : Point ℝ} {path : Path ℝ}
    (isPath : path ∈ r.scene.paths p q r.settings.options) :
    r.calculator.score path = .ok (r.calculator.losses path) ∧
      (r.calculator.losses path).bands = r.settings.bands ∧
      (r.calculator.losses path).total.length = r.settings.bands.size := by
  have length := Scene.length_nonneg_of_mem_paths isPath
  have reflecting : ∀ a ∈ path.absorptions, 0 ≤ a ∧ a < 1 := by
    intro a absorbed
    obtain ⟨wall, isWall, rfl, reflects⟩ := Scene.exists_wall_of_mem_absorptions isPath absorbed
    exact ⟨sound.walls wall isWall, reflects⟩
  obtain ⟨bands, size, -⟩ := Calculator.losses_spec sound.calculator length reflecting
  refine ⟨Calculator.score_eq length reflecting, bands.trans sound.bands, ?_⟩
  rw [Losses.total, List.length_map, size, sound.bands]

theorem pathContributions_eq_ok_iff {made : List (Contribution ℝ)} :
    r.pathContributions place source
        (r.scene.paths source.position receiver.position r.settings.options) = .ok made ↔
      source.spectrum.Serves r.settings.bands ∧
        made = (r.scene.paths source.position receiver.position r.settings.options).map
          (r.heard place source) := by
  rw [pathContributions, mapM_eq_ok_iff (P := fun _ => source.spectrum.Serves r.settings.bands)
    (g := r.heard place source)]
  · -- the direct path is always there to ask for a level in every band
    refine and_congr_left fun _ => ⟨fun serves => ?_, fun serves _ _ => serves⟩
    exact serves _ (List.mem_cons_self)
  · intro path isPath made
    obtain ⟨scored, bands, size⟩ := score_eq_ok sound isPath
    have length : (source.spectrum.after (r.calculator.losses path)).length
        = r.settings.bands.size ↔ r.settings.bands.size ≤ source.spectrum.levels.length := by
      rw [Spectrum.after, List.length_zipWith, size, min_eq_right_iff]
    simp only [scored, bind_eq_ok_iff, Except.ok.injEq, exists_eq_left', contribution_eq_ok_iff,
      bands, length, true_and, Spectrum.Serves, heard, and_assoc]

theorem sourceContributions_eq_ok_iff {made : List (Contribution ℝ)} :
    r.sourceContributions receiver place source = .ok made ↔
      r.Audible receiver source ∧ made = r.heardFrom receiver place source := by
  unfold sourceContributions heardFrom Audible InRange
  split_ifs with far
  · simp [far, pure, Except.pure, eq_comm]
  · rw [imp_iff_right (not_lt.1 far), bind_eq_ok_iff]
    simp only [Scene.findPaths_eq_ok_iff]
    constructor
    · rintro ⟨_, ⟨⟨apart, -⟩, rfl⟩, contribute⟩
      obtain ⟨serves, rfl⟩ := (pathContributions_eq_ok_iff sound).1 contribute
      exact ⟨⟨apart, serves⟩, rfl⟩
    · rintro ⟨⟨apart, serves⟩, rfl⟩
      exact ⟨_, ⟨⟨apart, sound.sourceFactor⟩, rfl⟩,
        (pathContributions_eq_ok_iff sound).2 ⟨serves, rfl⟩⟩

theorem contributions_eq_ok_iff {sources : List (PointSource ℝ)} {made : List (Contribution ℝ)} :
    r.contributions receiver place sources = .ok made ↔
      (∀ source ∈ sources, r.Audible receiver source) ∧
        made = r.heardAt receiver place sources := by
  induction sources generalizing place made with
  | nil => simp [contributions, heardAt, pure, Except.pure, eq_comm]
  | cons source rest ih =>
      rw [contributions, bind_eq_ok_iff, List.forall_mem_cons]
      simp only [sourceContributions_eq_ok_iff sound, bind_eq_ok_iff, ih]
      constructor
      · rintro ⟨_, ⟨first, rfl⟩, _, ⟨later, rfl⟩, made⟩
        exact ⟨⟨first, later⟩, (Except.ok.inj made).symm⟩
      · rintro ⟨⟨first, later⟩, rfl⟩
        exact ⟨_, ⟨first, rfl⟩, _, ⟨later, rfl⟩, rfl⟩

/-- A receiver is evaluated unless a source in range is too near or has too few levels. -/
theorem evaluate_eq_ok_iff {sources : List (PointSource ℝ)} {result : ReceiverResult ℝ} :
    r.evaluate sources receiver = .ok result ↔
      (∀ source ∈ sources, r.Audible receiver source) ∧ result = r.received sources receiver := by
  rw [evaluate, bind_eq_ok_iff]
  simp only [contributions_eq_ok_iff sound, aggregate_eq_ok_iff]
  constructor
  · rintro ⟨_, ⟨audible, rfl⟩, -, rfl⟩
    exact ⟨audible, rfl⟩
  · rintro ⟨audible, rfl⟩
    exact ⟨_, ⟨audible, rfl⟩, fun c isHeard => bands_of_mem_heardAt isHeard, rfl⟩

/-! ### Where there is no result -/

variable {fault : Fault ℝ}

theorem eq_coincident_of_sourceContributions (serves : source.spectrum.Serves r.settings.bands)
    (fails : r.sourceContributions receiver place source = .error fault) : fault = coincident := by
  unfold sourceContributions at fails
  split_ifs at fails
  · simp [pure, Except.pure] at fails
  · obtain refused | ⟨paths, found, fails⟩ := bind_eq_error_iff.1 fails
    · exact Scene.eq_coincident_of_findPaths sound.sourceFactor refused
    · obtain ⟨-, rfl⟩ := Scene.findPaths_eq_ok_iff.1 found
      rw [(pathContributions_eq_ok_iff sound).2 ⟨serves, rfl⟩] at fails
      simp at fails

theorem eq_coincident_of_contributions {sources : List (PointSource ℝ)}
    (serve : ∀ source ∈ sources, source.spectrum.Serves r.settings.bands)
    (fails : r.contributions receiver place sources = .error fault) : fault = coincident := by
  induction sources generalizing place with
  | nil => simp [contributions, pure, Except.pure] at fails
  | cons source rest ih =>
      obtain ⟨serves, serve⟩ := List.forall_mem_cons.1 serve
      obtain first | ⟨_, -, fails⟩ := bind_eq_error_iff.1 fails
      · exact eq_coincident_of_sourceContributions sound serves first
      · obtain later | ⟨_, -, fails⟩ := bind_eq_error_iff.1 fails
        · exact ih serve later
        · simp [pure, Except.pure] at fails

theorem eq_coincident_of_evaluate {sources : List (PointSource ℝ)}
    (serve : ∀ source ∈ sources, source.spectrum.Serves r.settings.bands)
    (fails : r.evaluate sources receiver = .error fault) : fault = coincident := by
  obtain refused | ⟨_, computed, fails⟩ := bind_eq_error_iff.1 fails
  · exact eq_coincident_of_contributions sound serve refused
  · -- what was contributed can be added up
    obtain ⟨-, rfl⟩ := (contributions_eq_ok_iff sound).1 computed
    rw [aggregate_eq_ok_iff.2 ⟨fun c isHeard => bands_of_mem_heardAt isHeard, rfl⟩] at fails
    simp at fails

/-- Among sources with a level for every band, one at the receiver's own place is all that
can be wrong. -/
theorem evaluate_eq_error_iff {sources : List (PointSource ℝ)}
    (serve : ∀ source ∈ sources, source.spectrum.Serves r.settings.bands) :
    r.evaluate sources receiver = .error fault ↔
      r.Crowded sources receiver ∧ fault = coincident := by
  rw [crowded_iff serve]
  cases computed : r.evaluate sources receiver with
  | ok result =>
      have audible := ((evaluate_eq_ok_iff sound).1 computed).1
      exact iff_of_false (by simp) fun unheard => unheard.1 audible
  | error found =>
      obtain rfl := eq_coincident_of_evaluate sound serve computed
      have unheard : ¬∀ source ∈ sources, r.Audible receiver source := fun audible => by
        rw [(evaluate_eq_ok_iff sound).2 ⟨audible, rfl⟩] at computed
        simp at computed
      rw [Except.error.injEq, and_iff_right unheard, eq_comm]

end

end Runner

/-! ## One source -/

/-- A source of one level in all octaves. -/
noncomputable def hum : PointSource ℝ := ⟨⟨0, 0, 1⟩, .uniform .octave 100⟩

theorem hum_serves : hum.spectrum.Serves .octave := by
  simp [hum, Spectrum.Serves, Spectrum.uniform]

theorem hum_audible {r : Runner ℝ} {receiver : Receiver ℝ} (octave : r.settings.bands = .octave)
    (apart : Scalar.eps ≤ hum.position.distance receiver.position) : r.Audible receiver hum :=
  fun _ => ⟨apart, octave ▸ hum_serves⟩

/-- A runner with the standard settings can be made for any finished draft. -/
theorem exists_runner {d : Draft ℝ} (made : d.Made) :
    ∃ r, Runner.ofScene Settings.standard (.ok d.finish) = .ok r ∧ r.Sound ∧
      r.settings = Settings.standard := by
  have admitted : (Settings.standard : Settings ℝ).TableAdmitted := by
    simp [Settings.TableAdmitted, Settings.standard]
  have calculates := (Settings.calculator_eq_ok_iff standard_checked).2 ⟨admitted, rfl⟩
  have built : Runner.ofScene Settings.standard (.ok d.finish) = .ok _ :=
    Runner.ofScene_eq_ok_iff.2 ⟨standard_checked, _, calculates, rfl⟩
  exact ⟨_, built, Runner.sound_of_ofScene made built, rfl⟩

end RoadNoise
