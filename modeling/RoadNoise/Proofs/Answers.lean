/-
# RoadNoise.Proofs.Answers -- batches that always have a report

A batch is given up when some receiver fails for a reason that will come back.  Such
reasons are wrong bands and wrong settings, and both are looked at before a receiver is:
the settings when the runner is made, the bands when the batch begins.  So with sources
that have a level for every band no batch is given up (`Runner.answers`), and a receiver
has no result only if it was skipped or a source lies at its own place.
-/
import RoadNoise.Proofs.Lookup
import RoadNoise.Proofs.Schedule

set_option autoImplicit false

namespace RoadNoise

namespace Runner

section

variable {r : Runner ℝ} (sound : r.Sound) {sources : List (PointSource ℝ)}
  (serve : ∀ source ∈ sources, source.spectrum.Serves r.settings.bands)
  {receivers : List (Receiver ℝ)} {p : Progress ℝ}

/-- What a receiver that was not skipped has in a report: its levels, or the one fault that
there is. -/
def Answered (r : Runner ℝ) (sources : List (PointSource ℝ)) (receiver : Receiver ℝ)
    (report : Report ℝ) : Prop :=
  (r.Crowded sources receiver ∧ (receiver.id, coincident) ∈ report.failures) ∨
    ¬r.Crowded sources receiver ∧ ∃ result, (receiver.id, result) ∈ report.results ∧
      result.spectrum.bands = r.settings.bands ∧
        result.spectrum.levels.length = r.settings.bands.size

include sound serve

/-- No fault that a receiver comes to will come back for every other. -/
theorem harmless_of_reached (distinct : Distinct receivers)
    (reached : r.Reached sources receivers.toArray p) {place : Nat} {fault : Fault ℝ}
    (failed : p.fates[place]? = some (.evaluated (.error fault))) : fault.isFatal = false := by
  obtain ⟨receiver, -, outcome⟩ :=
    (Progress.Accurate.of_reached distinct reached).exists_receiver failed
  rw [eq_coincident_of_evaluate sound serve outcome.symm]
  rfl

/-- No worker ever raises the abort flag. -/
theorem not_aborted_of_reached (distinct : Distinct receivers)
    (reached : r.Reached sources receivers.toArray p) : p.aborted = false := by
  rw [← Bool.not_eq_true]
  intro raised
  obtain ⟨place, fault, failed, fatal⟩ :=
    (Progress.Accurate.of_reached distinct reached).aborted raised
  simp [harmless_of_reached sound serve distinct reached failed] at fatal

theorem not_fatal_of_reached (distinct : Distinct receivers)
    (reached : r.Reached sources receivers.toArray p) (fault : Fault ℝ) :
    ¬Fatal p.fates.toList fault := by
  rintro ⟨isFate, fatal⟩
  obtain ⟨place, failed⟩ := List.mem_iff_getElem?.1 isFate
  simp [harmless_of_reached sound serve distinct reached (by simpa using failed)] at fatal

theorem answered_of_faithful {made : Report ℝ} (faithful : made.Faithful r sources receivers p)
    {place : Nat} {receiver : Receiver ℝ} (isAt : receivers[place]? = some receiver)
    (taken : p.fates[place]? ≠ some .skipped) : r.Answered sources receiver made := by
  have isReceiver := List.mem_of_getElem? isAt
  have told : receiver.id ∈ made.results.map Prod.fst ∨
      receiver.id ∈ made.failures.map Prod.fst := by
    by_contra untold
    exact taken ((faithful.missing place receiver isAt).1 (not_or.1 untold))
  rcases told with told | told
  · obtain ⟨⟨-, result⟩, isResult, rfl⟩ := List.mem_map.1 told
    obtain ⟨evaluates, -⟩ := faithful.results receiver isReceiver result isResult
    obtain ⟨audible, rfl⟩ := (evaluate_eq_ok_iff sound).1 evaluates
    exact .inr ⟨fun crowded => (crowded_iff serve).1 crowded audible, _, isResult, rfl,
      Spectrum.length_together _⟩
  · obtain ⟨⟨-, fault⟩, isFault, rfl⟩ := List.mem_map.1 told
    have fails := faithful.failures receiver isReceiver fault isFault
    obtain ⟨crowded, rfl⟩ := (evaluate_eq_error_iff sound serve).1 fails
    exact .inl ⟨crowded, isFault⟩

/-- Every batch ends with a report, and in it every receiver that was not skipped has its
answer. -/
theorem exists_report (distinct : Distinct receivers) {answer : Outcome ℝ (Report ℝ)}
    (ends : r.Ends sources receivers p answer) : p.aborted = false ∧
      ∃ made, answer = .ok made ∧ ∀ (place : Nat) (receiver : Receiver ℝ),
        receivers[place]? = some receiver →
          (p.fates[place]? = some .skipped ∧ p.cancelled = true) ∨
            r.Answered sources receiver made := by
  have accepts : r.accept sources receivers = .ok () :=
    accept_eq_ok_iff.2 ⟨fun s isSource => (serve s isSource).1, distinct⟩
  cases ends with
  | refused refuses => simp [accepts] at refuses
  | finished _ reached ended =>
      have aborted := not_aborted_of_reached sound serve distinct reached
      have accurate := Progress.Accurate.of_reached distinct reached
      have reports : report receivers p.fates.toList = .ok ⟨_, _, _⟩ :=
        report_eq_ok_iff.2 ⟨not_fatal_of_reached sound serve distinct reached, rfl⟩
      have faithful := faithful_of_report distinct accurate ended reports
      refine ⟨aborted, _, reports, fun place receiver isAt => ?_⟩
      by_cases skipped : p.fates[place]? = some .skipped
      · have flag := accurate.skipped place skipped
        exact .inl ⟨skipped, flag.resolve_right (by simp [aborted])⟩
      · exact .inr (answered_of_faithful sound serve faithful isAt skipped)

end

/-- A runner that is made for a finished draft finds paths between any two places that are
apart and scores them all.  With sources that have a level for every band, a receiver fails
only by a source at its own place, and every batch ends with a report. -/
theorem answers {d : Draft ℝ} (made : d.Made) {s : Settings ℝ} {r : Runner ℝ}
    (built : Runner.ofScene s (.ok d.finish) = .ok r) {sources : List (PointSource ℝ)}
    (serve : ∀ source ∈ sources, source.spectrum.Serves s.bands) :
    (∀ p q : Point ℝ, Scalar.eps ≤ p.distance q →
      ∃ paths, d.finish.findPaths p q s.options = .ok paths ∧
        ∀ path ∈ paths, ∃ losses, r.calculator.score path = .ok losses) ∧
      (∀ receiver fault, r.evaluate sources receiver = .error fault ↔
        r.Crowded sources receiver ∧ fault = coincident) ∧
      ∀ receivers, Distinct receivers →
        (∀ limit, ∃ report, r.run sources receivers limit = .ok report) ∧
        ∀ p answer, r.Ends sources receivers p answer → p.aborted = false ∧
          ∃ report, answer = .ok report ∧ ∀ (place : Nat) (receiver : Receiver ℝ),
            receivers[place]? = some receiver →
              (p.fates[place]? = some .skipped ∧ p.cancelled = true) ∨
                r.Answered sources receiver report := by
  have sound := sound_of_ofScene made built
  obtain ⟨-, c, -, rfl⟩ := ofScene_eq_ok_iff.1 built
  refine ⟨fun p q apart => ?_, fun receiver fault => evaluate_eq_error_iff sound serve,
    fun receivers distinct => ⟨fun limit => ?_, fun p answer => exists_report sound serve distinct⟩⟩
  · exact ⟨_, Scene.findPaths_eq_ok_iff.2 ⟨⟨apart, sound.sourceFactor⟩, rfl⟩,
      fun path isPath => ⟨_, (score_eq_ok sound isPath).1⟩⟩
  · obtain ⟨p, ends⟩ := ends_run _ sources receivers limit
    obtain ⟨-, report, reports, -⟩ := exists_report sound serve distinct ends
    exact ⟨report, reports⟩

end Runner

theorem hum_answers : ∃ r, Runner.ofScene Settings.standard (.ok blockDraft.finish) = .ok r ∧
    r.evaluate [hum] ⟨3, ⟨0, 0, 1⟩⟩ = .error coincident ∧
      ∃ report, r.run [hum] trio none = .ok report := by
  obtain ⟨r, built, -, settings⟩ := exists_runner blockDraft_made
  have serve : ∀ source ∈ [hum], source.spectrum.Serves (Settings.standard : Settings ℝ).bands :=
    fun source isSource => List.mem_singleton.1 isSource ▸ hum_serves
  have distinct : Distinct trio := by simp [Distinct, trio]
  obtain ⟨-, fails_iff, batches⟩ := Runner.answers blockDraft_made built serve
  refine ⟨r, built, (fails_iff _ _).2 ⟨⟨hum, List.mem_singleton_self hum, ?_, ?_⟩, rfl⟩,
    (batches trio distinct).1 none⟩
  · norm_num [Runner.InRange, hum, Point.distance_eq, settings, Settings.standard]
  · simpa [hum, Point.distance_eq] using Scalar.eps_pos

end RoadNoise
