/-
# RoadNoise.Proofs.Superposition -- sources are heard as if alone

What a source contributes at a receiver depends on no other source but for its place in
the list, so the contributions of two lists of sources in a row are those of the first and
then those of the second, counted on (`Runner.heardAt_append`).  The levels at the receiver
come from the spectra of the contributions alone, and these do not even depend on the place
(`Runner.spectra_heardAt`).  A source out of range contributes nothing, and any other one
at least its direct path.

Hence two lists of sources that are both heard add by their powers, a list that is not
heard changes nothing, and the order of the sources does not matter.
-/
import RoadNoise.Proofs.Powers
import RoadNoise.Proofs.Lookup

set_option autoImplicit false

namespace RoadNoise

/-- The contribution of a source whose place is counted on by `n`. -/
def Contribution.shifted (n : Nat) (c : Contribution ℝ) : Contribution ℝ :=
  { c with source := n + c.source }

namespace Runner

noncomputable instance (r : Runner ℝ) (receiver : Receiver ℝ) :
    DecidablePred (r.InRange receiver) :=
  fun _ => inferInstanceAs (Decidable (_ ≤ _))

/-- The spectra that a source sends to a receiver. -/
noncomputable def spectraFrom (r : Runner ℝ) (receiver : Receiver ℝ) (source : PointSource ℝ) :
    List (Spectrum ℝ) :=
  (r.heardFrom receiver 0 source).map Contribution.spectrum

variable {r : Runner ℝ} {receiver : Receiver ℝ} {source : PointSource ℝ}
  {sources first second : List (PointSource ℝ)}

/-! ## Contributions -/

theorem heardFrom_add (place n : Nat) (source : PointSource ℝ) :
    r.heardFrom receiver (n + place) source
      = (r.heardFrom receiver place source).map (·.shifted n) := by
  unfold heardFrom
  split
  · rfl
  · rw [List.map_map]
    rfl

theorem heardAt_cons (place : Nat) (source : PointSource ℝ) (rest : List (PointSource ℝ)) :
    r.heardAt receiver place (source :: rest)
      = r.heardFrom receiver place source ++ r.heardAt receiver (place + 1) rest := by
  simp [heardAt, List.zipIdx_cons]

theorem heardAt_add (place n : Nat) (sources : List (PointSource ℝ)) :
    r.heardAt receiver (n + place) sources
      = (r.heardAt receiver place sources).map (·.shifted n) := by
  induction sources generalizing place with
  | nil => rfl
  | cons source rest ih =>
      rw [heardAt_cons, heardAt_cons, List.map_append, heardFrom_add, Nat.add_assoc, ih]

/-- Sources in a row contribute one after the other. -/
theorem heardAt_append (first second : List (PointSource ℝ)) :
    r.heardAt receiver 0 (first ++ second) = r.heardAt receiver 0 first
      ++ (r.heardAt receiver 0 second).map (·.shifted first.length) := by
  rw [← heardAt_add, heardAt, List.zipIdx_append, List.flatMap_append, Nat.add_comm]
  rfl

/-! ## Spectra -/

/-- The place of a source is not heard. -/
theorem spectra_heardAt (place : Nat) (sources : List (PointSource ℝ)) :
    (r.heardAt receiver place sources).map Contribution.spectrum
      = sources.flatMap (r.spectraFrom receiver) := by
  induction sources generalizing place with
  | nil => rfl
  | cons source rest ih =>
      have shifted : (r.heardFrom receiver place source).map Contribution.spectrum
          = r.spectraFrom receiver source := by
        rw [← Nat.add_zero place, heardFrom_add, List.map_map]
        rfl
      rw [heardAt_cons, List.map_append, shifted, ih, List.flatMap_cons]

theorem spectraFrom_of_far (far : ¬r.InRange receiver source) :
    r.spectraFrom receiver source = [] := by
  have beyond : r.settings.maxSourceDistance < source.position.distance receiver.position :=
    not_le.1 far
  rw [spectraFrom, heardFrom, if_pos beyond, List.map_nil]

/-- A source in range is heard by the direct path. -/
theorem spectraFrom_ne_nil (inRange : r.InRange receiver source) :
    r.spectraFrom receiver source ≠ [] := by
  have within : ¬r.settings.maxSourceDistance < source.position.distance receiver.position :=
    not_lt.2 inRange
  rw [spectraFrom, heardFrom, if_neg within]
  simp [Scene.paths]

theorem flatMap_spectraFrom_ne_nil (heard : ∃ source ∈ sources, r.InRange receiver source) :
    sources.flatMap (r.spectraFrom receiver) ≠ [] := by
  obtain ⟨source, isSource, inRange⟩ := heard
  intro silent
  exact spectraFrom_ne_nil inRange (List.flatMap_eq_nil_iff.1 silent source isSource)

theorem flatMap_spectraFrom_of_far (far : ∀ source ∈ sources, ¬r.InRange receiver source) :
    sources.flatMap (r.spectraFrom receiver) = [] :=
  List.flatMap_eq_nil_iff.2 fun source isSource => spectraFrom_of_far (far source isSource)

theorem flatMap_spectraFrom_filter (sources : List (PointSource ℝ)) :
    (sources.filter (r.InRange receiver)).flatMap (r.spectraFrom receiver)
      = sources.flatMap (r.spectraFrom receiver) := by
  induction sources with
  | nil => rfl
  | cons source rest ih =>
      by_cases inRange : r.InRange receiver source
      · rw [List.filter_cons_of_pos (by simpa using inRange), List.flatMap_cons, ih,
          List.flatMap_cons]
      · rw [List.filter_cons_of_neg (by simpa using inRange), ih, List.flatMap_cons,
          spectraFrom_of_far inRange, List.nil_append]

/-- Whatever is heard of audible sources has a level in every band, none below silence. -/
theorem arrives_of_audible (sound : r.Sound)
    (audible : ∀ source ∈ sources, r.Audible receiver source) :
    ∀ s ∈ sources.flatMap (r.spectraFrom receiver), s.Arrives r.settings.bands := by
  intro s isHeard
  obtain ⟨source, isSource, isHeard⟩ := List.mem_flatMap.1 isHeard
  by_cases inRange : r.InRange receiver source
  · obtain ⟨-, serves⟩ := audible source isSource inRange
    have within : ¬r.settings.maxSourceDistance < source.position.distance receiver.position :=
      not_lt.2 inRange
    rw [spectraFrom, heardFrom, if_neg within, List.map_map] at isHeard
    obtain ⟨path, isPath, rfl⟩ := List.mem_map.1 isHeard
    obtain ⟨-, -, size⟩ := score_eq_ok sound isPath
    refine Spectrum.arrives_after ?_
    rw [Spectrum.after, List.length_zipWith, size]
    exact min_eq_right serves.2
  · rw [spectraFrom_of_far inRange] at isHeard
    exact absurd isHeard List.not_mem_nil

/-- The spectrum at a receiver is that of all spectra heard together. -/
theorem spectrum_received (sources : List (PointSource ℝ)) (receiver : Receiver ℝ) :
    (r.received sources receiver).spectrum
      = .together r.settings.bands (sources.flatMap (r.spectraFrom receiver)) := by
  rw [← spectra_heardAt 0 sources]
  rfl

/-! ## Results -/

/-- Both lists of sources have a result at the receiver or neither has, and the levels are the
same. -/
def HeardAlike (r : Runner ℝ) (receiver : Receiver ℝ) (first second : List (PointSource ℝ)) :
    Prop :=
  ((∃ a, r.evaluate first receiver = .ok a) ↔ ∃ b, r.evaluate second receiver = .ok b) ∧
    ∀ a b, r.evaluate first receiver = .ok a → r.evaluate second receiver = .ok b →
      a.spectrum = b.spectrum ∧ a.laeq = b.laeq

theorem exists_evaluate_iff (sound : r.Sound) : (∃ a, r.evaluate sources receiver = .ok a) ↔
    ∀ source ∈ sources, r.Audible receiver source := by
  simp only [evaluate_eq_ok_iff sound, exists_and_left, exists_eq, and_true]

/-- The levels come from the spectra alone. -/
theorem levels_eq_of_spectra (sound : r.Sound) {a b : ReceiverResult ℝ}
    (evaluates : r.evaluate first receiver = .ok a)
    (evaluates' : r.evaluate second receiver = .ok b)
    (same : Spectrum.together r.settings.bands (first.flatMap (r.spectraFrom receiver))
      = .together r.settings.bands (second.flatMap (r.spectraFrom receiver))) :
    a.spectrum = b.spectrum ∧ a.laeq = b.laeq := by
  obtain ⟨-, rfl⟩ := (evaluate_eq_ok_iff sound).1 evaluates
  obtain ⟨-, rfl⟩ := (evaluate_eq_ok_iff sound).1 evaluates'
  have spectrum : (r.received first receiver).spectrum = (r.received second receiver).spectrum := by
    rw [spectrum_received, spectrum_received, same]
  exact ⟨spectrum, congrArg Spectrum.aWeighted spectrum⟩

theorem heardAlike_of_perm (sound : r.Sound) (perm : first.Perm second) :
    r.HeardAlike receiver first second := by
  constructor
  · rw [exists_evaluate_iff sound, exists_evaluate_iff sound]
    exact ⟨fun audible source isSource => audible source (perm.mem_iff.2 isSource),
      fun audible source isSource => audible source (perm.mem_iff.1 isSource)⟩
  · intro a b evaluates evaluates'
    exact levels_eq_of_spectra sound evaluates evaluates'
      (Spectrum.together_perm (perm.flatMap_right _))

theorem heardAlike_filter (sound : r.Sound) (sources : List (PointSource ℝ)) :
    r.HeardAlike receiver sources (sources.filter (r.InRange receiver)) := by
  constructor
  · rw [exists_evaluate_iff sound, exists_evaluate_iff sound]
    constructor
    · intro audible source isSource
      exact audible source (List.mem_of_mem_filter isSource)
    · intro audible source isSource inRange
      exact audible source (List.mem_filter.2 ⟨isSource, by simpa using inRange⟩) inRange
  · intro a b evaluates evaluates'
    exact levels_eq_of_spectra sound evaluates evaluates' (by rw [flatMap_spectraFrom_filter])

end Runner

/-- Sources are heard as if alone.  Two lists of them in a row have a result if both have;
it has the contributions of the first and then those of the second, counted on; where both
are heard the powers add in every band, and where one is not the other one decides.  The
order of the sources and those out of range do not matter. -/
theorem superposition {d : Draft ℝ} (made : d.Made) {s : Settings ℝ} {r : Runner ℝ}
    (built : Runner.ofScene s (.ok d.finish) = .ok r) (receiver : Receiver ℝ) :
    (∀ first second : List (PointSource ℝ),
      ((∃ whole, r.evaluate (first ++ second) receiver = .ok whole) ↔
        (∃ a, r.evaluate first receiver = .ok a) ∧ ∃ b, r.evaluate second receiver = .ok b) ∧
      ∀ whole a b, r.evaluate (first ++ second) receiver = .ok whole →
        r.evaluate first receiver = .ok a → r.evaluate second receiver = .ok b →
        whole.contributions = a.contributions ++ b.contributions.map (·.shifted first.length) ∧
        ((∃ source ∈ first, r.InRange receiver source) →
          (∃ source ∈ second, r.InRange receiver source) →
          whole.spectrum.levels.length = r.settings.bands.size ∧
          whole.spectrum.levels.map Level.power
            = (a.spectrum.levels.map Level.power).zipWith (· + ·)
                (b.spectrum.levels.map Level.power)) ∧
        ((∀ source ∈ second, ¬r.InRange receiver source) →
          whole.spectrum = a.spectrum ∧ whole.laeq = a.laeq) ∧
        ((∀ source ∈ first, ¬r.InRange receiver source) →
          whole.spectrum = b.spectrum ∧ whole.laeq = b.laeq)) ∧
    (∀ sources shuffled, sources.Perm shuffled → r.HeardAlike receiver sources shuffled) ∧
    ∀ sources, r.HeardAlike receiver sources (sources.filter (r.InRange receiver)) := by
  have sound := Runner.sound_of_ofScene made built
  refine ⟨fun first second => ⟨?_, ?_⟩, fun _ _ => Runner.heardAlike_of_perm sound,
    Runner.heardAlike_filter sound⟩
  · simp only [Runner.exists_evaluate_iff sound, List.forall_mem_append]
  · intro whole a b evaluates evaluates₁ evaluates₂
    have spectra : (first ++ second).flatMap (r.spectraFrom receiver)
        = first.flatMap (r.spectraFrom receiver) ++ second.flatMap (r.spectraFrom receiver) :=
      List.flatMap_append
    refine ⟨?_, ?_, ?_, ?_⟩
    · obtain ⟨-, rfl⟩ := (Runner.evaluate_eq_ok_iff sound).1 evaluates
      obtain ⟨-, rfl⟩ := (Runner.evaluate_eq_ok_iff sound).1 evaluates₁
      obtain ⟨-, rfl⟩ := (Runner.evaluate_eq_ok_iff sound).1 evaluates₂
      exact Runner.heardAt_append first second
    · intro heard heard'
      obtain ⟨-, rfl⟩ := (Runner.evaluate_eq_ok_iff sound).1 evaluates
      obtain ⟨audible, rfl⟩ := (Runner.evaluate_eq_ok_iff sound).1 evaluates₁
      obtain ⟨audible', rfl⟩ := (Runner.evaluate_eq_ok_iff sound).1 evaluates₂
      simp only [Runner.spectrum_received, spectra]
      exact ⟨Spectrum.length_together _, Spectrum.powers_together_append
        (Runner.flatMap_spectraFrom_ne_nil heard) (Runner.flatMap_spectraFrom_ne_nil heard')
        (Runner.arrives_of_audible sound audible) (Runner.arrives_of_audible sound audible')⟩
    · intro far
      refine Runner.levels_eq_of_spectra sound evaluates evaluates₁ ?_
      rw [spectra, Runner.flatMap_spectraFrom_of_far far, List.append_nil]
    · intro far
      refine Runner.levels_eq_of_spectra sound evaluates evaluates₂ ?_
      rw [spectra, Runner.flatMap_spectraFrom_of_far far, List.nil_append]

/-- Two sources at one place have twice the power of one in every band. -/
theorem hum_superposition : ∃ r, Runner.ofScene Settings.standard (.ok blockDraft.finish) = .ok r ∧
    ∃ a whole, r.evaluate [hum] ⟨7, ⟨0, 30, 4⟩⟩ = .ok a ∧
      r.evaluate [hum, hum] ⟨7, ⟨0, 30, 4⟩⟩ = .ok whole ∧
      whole.spectrum.levels.map Level.power
        = (a.spectrum.levels.map Level.power).zipWith (· + ·) (a.spectrum.levels.map Level.power)
      := by
  have apart : Scalar.eps ≤ hum.position.distance ⟨0, 30, 4⟩ := by
    rw [Scalar.eps_eq, Point.distance_eq]
    exact Real.le_sqrt_of_sq_le (by norm_num [hum])
  obtain ⟨r, built, sound, settings⟩ := exists_runner blockDraft_made
  have inRange : r.InRange ⟨7, ⟨0, 30, 4⟩⟩ hum := by
    rw [Runner.InRange, settings, Point.distance_eq]
    exact Real.sqrt_le_iff.2 (by norm_num [hum, Settings.standard])
  have audible : r.Audible ⟨7, ⟨0, 30, 4⟩⟩ hum := hum_audible (by rw [settings]; rfl) apart
  have evaluates : r.evaluate [hum] ⟨7, ⟨0, 30, 4⟩⟩ = .ok _ :=
    (Runner.evaluate_eq_ok_iff sound).2 ⟨List.forall_mem_singleton.2 audible, rfl⟩
  obtain ⟨joined, -, -⟩ := superposition blockDraft_made built ⟨7, ⟨0, 30, 4⟩⟩
  obtain ⟨succeeds, adds⟩ := joined [hum] [hum]
  obtain ⟨whole, evaluates'⟩ := succeeds.2 ⟨⟨_, evaluates⟩, ⟨_, evaluates⟩⟩
  obtain ⟨-, powers, -⟩ := adds _ _ _ evaluates' evaluates evaluates
  have heard : ∃ source ∈ [hum], r.InRange ⟨7, ⟨0, 30, 4⟩⟩ source :=
    ⟨hum, List.mem_singleton_self _, inRange⟩
  exact ⟨r, built, _, whole, evaluates, evaluates', (powers heard heard).2⟩

end RoadNoise
