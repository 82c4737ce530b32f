/-
# RoadNoise.Proofs.Wider -- who looks for more finds the same and more

Options say which paths are looked for: around and over obstacles or not, off how many
walls, and off walls how far away.  Under wider options (`PathOptions.Within`) every path
is found again as it was, in the same order, with new ones in between: the candidates
among the walls are more, and so are the sequences of them, group by group.  At a
receiver more contributions arrive then, so no level is lower (`Runner.louder_of_within`).
-/
import RoadNoise.Proofs.Exhaustive
import RoadNoise.Proofs.Louder

set_option autoImplicit false

namespace RoadNoise

/-! ## Lists that grow -/

theorem flatMap_sublist {β γ : Type} {l more : List β} {f g : β → List γ} (part : l.Sublist more)
    (each : ∀ b, (f b).Sublist (g b)) : (l.flatMap f).Sublist (more.flatMap g) :=
  (part.flatMap f).trans (.flatMap_right more fun b _ => each b)

theorem filterMap_sublist {β γ : Type} {l : List β} {f g : β → Option γ}
    (each : ∀ b c, f b = some c → g b = some c) : (l.filterMap f).Sublist (l.filterMap g) := by
  rw [List.filterMap_eq_flatMap_toList, List.filterMap_eq_flatMap_toList]
  refine .flatMap_right l fun b _ => ?_
  cases found : f b with
  | none => exact List.nil_sublist _
  | some c => rw [each b c found]

theorem ite_sublist {β : Type} {P Q : Prop} [Decidable P] [Decidable Q] (implies : P → Q)
    (l : List β) : (if P then l else []).Sublist (if Q then l else []) := by
  by_cases holds : P
  · rw [if_pos holds, if_pos (implies holds)]
  · rw [if_neg holds]
    exact List.nil_sublist _

theorem Sequence.ofLength_sublist {γ : Type} {items more : List γ} (part : items.Sublist more)
    (n : Nat) : (ofLength items n).Sublist (ofLength more n) := by
  induction n with
  | zero => exact .refl _
  | succ n ih => exact flatMap_sublist part fun c => ih.map _

/-! ## Options -/

/-- The second options look for all that the first look for. -/
structure PathOptions.Within (o wider : PathOptions ℝ) : Prop where
  horizontal : o.horizontal = true → wider.horizontal = true
  vertical : o.vertical = true → wider.vertical = true
  maxOrder : o.maxOrder ≤ wider.maxOrder
  sourceFactor : wider.sourceFactor = o.sourceFactor
  distance : o.maxReflectionDistance ≤ wider.maxReflectionDistance

namespace Scene

variable {s : Scene ℝ} {source receiver : Point ℝ} {o wider : PathOptions ℝ}

/-! ## Walls and sequences of walls -/

theorem wallWithin_mono {p : Point ℝ} {near far : ℝ} (farther : near ≤ far) {w : Nat}
    (within : s.wallWithin p near w = true) : s.wallWithin p far w = true := by
  unfold wallWithin at within ⊢
  split at within
  · simp only [decide_eq_true_eq] at within ⊢
    exact within.trans farther
  · exact within

theorem candidates_sublist {near wide : Nat → Bool} (more : ∀ w, near w = true → wide w = true) :
    (s.candidates near).Sublist (s.candidates wide) := by
  refine filterMap_sublist fun w c kept => ?_
  unfold candidate? at kept ⊢
  split at kept
  · split_ifs at kept with passes
    obtain ⟨isNear, reflects⟩ := Bool.and_eq_true_iff.1 passes
    rw [if_pos (Bool.and_eq_true_iff.2 ⟨more w isNear, reflects⟩), kept]
  · simp at kept

theorem searchedPaths_sublist (within : o.Within wider) {near wide : Nat → Bool}
    (more : ∀ w, near w = true → wide w = true) :
    (s.searchedPaths near source receiver o).Sublist
      (s.searchedPaths wide source receiver wider) := by
  unfold searchedPaths
  rw [within.sourceFactor]
  refine flatMap_sublist (List.range_sublist.2 within.maxOrder) fun n => ?_
  exact ((Sequence.ofLength_sublist (candidates_sublist more) (n + 1)).filterMap _).filterMap _

/-! ## Paths -/

theorem bentPaths_sublist (within : o.Within wider) :
    (s.bentPaths source receiver o).Sublist (s.bentPaths source receiver wider) := by
  have around : (o.horizontal && !(s.obstructing source receiver).isEmpty) = true →
      (wider.horizontal && !(s.obstructing source receiver).isEmpty) = true := by
    simp only [Bool.and_eq_true]
    exact And.imp_left within.horizontal
  simp only [bentPaths, within.sourceFactor]
  by_cases free : ((s.obstructing source receiver).isEmpty &&
      (s.cut source receiver).groundAboveLine.isEmpty) = true
  · rw [if_pos free, if_pos free]
  · rw [if_neg free, if_neg free]
    exact (ite_sublist within.vertical _).append (ite_sublist around _)

end Scene

/-- Every path is found again under wider options, and the order is kept. -/
theorem Draft.paths_sublist (d : Draft ℝ) {source receiver : Point ℝ} {o wider : PathOptions ℝ}
    (within : o.Within wider) :
    (d.finish.paths source receiver o).Sublist (d.finish.paths source receiver wider) := by
  have more : ∀ w, d.finish.foundNear source receiver o.maxReflectionDistance w = true →
      d.finish.foundNear source receiver wider.maxReflectionDistance w = true := by
    intro w
    simp only [Scene.foundNear, Bool.or_eq_true, List.contains_iff_mem, Draft.finish_wallsNear,
      Scene.plainWallsNear, List.mem_filter]
    exact Or.imp (And.imp_right (Scene.wallWithin_mono within.distance))
      (And.imp_right (Scene.wallWithin_mono within.distance))
  have reflected : (d.finish.reflectedPaths source receiver o).Sublist
      (d.finish.reflectedPaths source receiver wider) := by
    rw [Scene.reflectedPaths_eq_searchedPaths, Scene.reflectedPaths_eq_searchedPaths]
    exact Scene.searchedPaths_sublist within more
  rw [Scene.paths, Scene.paths, within.sourceFactor]
  exact ((Scene.bentPaths_sublist within).cons_cons _).append reflected

/-! ## Receivers -/

namespace Runner

variable {r : Runner ℝ} {d : Draft ℝ} {wider : PathOptions ℝ}

/-- The runner with other options. -/
def withOptions (r : Runner ℝ) (o : PathOptions ℝ) : Runner ℝ :=
  { r with settings := { r.settings with options := o } }

/-- Settings that pass do so with wider options. -/
theorem ofScene_withOptions {s : Settings ℝ} {scene : Scene ℝ} (within : s.options.Within wider)
    (built : ofScene s (.ok scene) = .ok r) :
    ofScene { s with options := wider } (.ok scene) = .ok (r.withOptions wider) := by
  obtain ⟨checked, c, calculates, rfl⟩ := ofScene_eq_ok_iff.1 built
  refine ofScene_eq_ok_iff.2 ⟨?_, c, calculates, rfl⟩
  exact
    { atmosphere := checked.atmosphere
      tableSize := checked.tableSize
      weather := checked.weather
      sourceFactor := within.sourceFactor ▸ checked.sourceFactor
      ground := checked.ground
      wall := checked.wall
      elevation := checked.elevation
      sourceDistance := checked.sourceDistance
      reflectionDistance := by
        have least := checked.reflectionDistance
        simp only [Rule.admits, Scalar.isFinite_eq, Bool.true_and, decide_eq_true_eq] at least ⊢
        exact least.trans_le within.distance
      threads := checked.threads }

theorem heardFrom_sublist (finished : r.scene = d.finish)
    (within : r.settings.options.Within wider) (receiver : Receiver ℝ) (place : Nat)
    (source : PointSource ℝ) : (r.heardFrom receiver place source).Sublist
      ((r.withOptions wider).heardFrom receiver place source) := by
  have found : (r.scene.paths source.position receiver.position r.settings.options).Sublist
      (r.scene.paths source.position receiver.position wider) :=
    finished ▸ d.paths_sublist within
  unfold heardFrom
  split_ifs with far far'
  · exact .refl _
  · exact absurd far far'
  · contradiction
  · exact found.map (r.heard place source)

/-- Under wider options more is contributed, in the order there was. -/
theorem heardAt_sublist (finished : r.scene = d.finish)
    (within : r.settings.options.Within wider) (receiver : Receiver ℝ) (place : Nat)
    (sources : List (PointSource ℝ)) : (r.heardAt receiver place sources).Sublist
      ((r.withOptions wider).heardAt receiver place sources) :=
  flatMap_sublist (.refl _) fun e => heardFrom_sublist finished within receiver e.2 e.1

/-- A receiver that has a result has one with other options, too, and under wider options
no level of it is lower. -/
theorem louder_of_within (sound : r.Sound) (sound' : (r.withOptions wider).Sound)
    (finished : r.scene = d.finish) (within : r.settings.options.Within wider)
    {sources : List (PointSource ℝ)} {receiver : Receiver ℝ} {result : ReceiverResult ℝ}
    (evaluates : r.evaluate sources receiver = .ok result) :
    ∃ louder, (r.withOptions wider).evaluate sources receiver = .ok louder ∧
      List.Forall₂ (· ≤ ·) result.spectrum.levels louder.spectrum.levels ∧
        result.laeq ≤ louder.laeq := by
  obtain ⟨audible, rfl⟩ := (evaluate_eq_ok_iff sound).1 evaluates
  have part := (heardAt_sublist finished within receiver 0 sources).map Contribution.spectrum
  have grow : List.Forall₂ (· ≤ ·) (r.received sources receiver).spectrum.levels
      ((r.withOptions wider).received sources receiver).spectrum.levels :=
    Spectrum.together_mono part
  have same : (r.received sources receiver).spectrum.bands
      = ((r.withOptions wider).received sources receiver).spectrum.bands := by
    rw [bands_received, bands_received, withOptions]
  exact ⟨_, (evaluate_eq_ok_iff sound').2 ⟨audible, rfl⟩, grow, Spectrum.aWeighted_mono same grow⟩

end Runner

/-- Under wider options every path is found again as it was and in the order there was.  A
runner can be made with them if it can with the others, and wherever there is a result no
level of it is lower then. -/
theorem Draft.finish_wider {d : Draft ℝ} (made : d.Made) {o wider : PathOptions ℝ}
    (within : o.Within wider) :
    (∀ source receiver paths, d.finish.findPaths source receiver o = .ok paths →
      ∃ more, d.finish.findPaths source receiver wider = .ok more ∧ paths.Sublist more) ∧
    ∀ (s : Settings ℝ) (r : Runner ℝ),
      Runner.ofScene { s with options := o } (.ok d.finish) = .ok r →
      ∃ r', Runner.ofScene { s with options := wider } (.ok d.finish) = .ok r' ∧
        ∀ sources receiver result, r.evaluate sources receiver = .ok result →
          ∃ louder, r'.evaluate sources receiver = .ok louder ∧
            List.Forall₂ (· ≤ ·) result.spectrum.levels louder.spectrum.levels ∧
              result.laeq ≤ louder.laeq := by
  constructor
  · intro source receiver paths found
    obtain ⟨⟨apart, factor⟩, rfl⟩ := Scene.findPaths_eq_ok_iff.1 found
    have factor' := within.sourceFactor ▸ factor
    exact ⟨_, Scene.findPaths_eq_ok_iff.2 ⟨⟨apart, factor'⟩, rfl⟩, d.paths_sublist within⟩
  · intro s r built
    have built' := Runner.ofScene_withOptions within built
    have sound := Runner.sound_of_ofScene made built
    have sound' := Runner.sound_of_ofScene made built'
    refine ⟨_, built', fun sources receiver result evaluates => ?_⟩
    obtain ⟨-, c, -, rfl⟩ := Runner.ofScene_eq_ok_iff.1 built
    exact Runner.louder_of_within sound sound' rfl within evaluates

/-- Around the obstacles as well, and off two walls up to eighty metres away. -/
noncomputable def farther : PathOptions ℝ := ⟨true, true, 2, none, 80⟩

theorem farther_louder :
    (∃ paths more, blockDraft.finish.findPaths hum.position ⟨0, 30, 4⟩ .standard = .ok paths ∧
      blockDraft.finish.findPaths hum.position ⟨0, 30, 4⟩ farther = .ok more ∧ paths.Sublist more) ∧
    ∃ r r' result louder,
      Runner.ofScene Settings.standard (.ok blockDraft.finish) = .ok r ∧
      Runner.ofScene { Settings.standard with options := farther } (.ok blockDraft.finish)
        = .ok r' ∧
      r.evaluate [hum] ⟨7, ⟨0, 30, 4⟩⟩ = .ok result ∧
      r'.evaluate [hum] ⟨7, ⟨0, 30, 4⟩⟩ = .ok louder ∧ result.laeq ≤ louder.laeq := by
  have within : PathOptions.standard.Within farther :=
    { horizontal := fun _ => rfl
      vertical := fun _ => rfl
      maxOrder := Nat.zero_le 2
      sourceFactor := rfl
      distance := by norm_num [PathOptions.standard, farther] }
  have apart : Scalar.eps ≤ hum.position.distance ⟨0, 30, 4⟩ := by
    rw [Scalar.eps_eq, Point.distance_eq]
    exact Real.le_sqrt_of_sq_le (by norm_num [hum])
  obtain ⟨finds, runs⟩ := Draft.finish_wider blockDraft_made within
  constructor
  · have found := (Scene.findPaths_eq_ok_iff (s := blockDraft.finish) (o := .standard)).2
      ⟨⟨apart, by simp [PathOptions.standard]⟩, rfl⟩
    obtain ⟨more, again, part⟩ := finds _ _ _ found
    exact ⟨_, more, found, again, part⟩
  · obtain ⟨r, built, sound, settings⟩ := exists_runner blockDraft_made
    have evaluates : r.evaluate [hum] ⟨7, ⟨0, 30, 4⟩⟩ = .ok _ :=
      (Runner.evaluate_eq_ok_iff sound).2
        ⟨List.forall_mem_singleton.2 (hum_audible (by rw [settings]; rfl) apart), rfl⟩
    obtain ⟨r', built', louder⟩ := runs Settings.standard r built
    obtain ⟨result, again, -, laeq⟩ := louder _ _ _ evaluates
    exact ⟨r, r', _, result, built, built', evaluates, again, laeq⟩

end RoadNoise
