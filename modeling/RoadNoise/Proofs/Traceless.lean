/-
# RoadNoise.Proofs.Traceless -- what is refused leaves no trace

A site is filled, finished once, and asked from then on.  Steps may come in any order and
with any arguments, and many are refused: edits for their own sake or because the site is
finished, queries because it is not.  Each step is work of which it is known that a failure
leaves nothing behind (`Site.atomic_perform`), so a run without its refused steps ends in the
same site, and the other steps are answered as they were (`Site.run_accepted`).  A finished
site does not change at all (`Site.after_of_finished`).

Nothing here depends on the numbers, so it holds of rounded ones as well.
-/
import RoadNoise.Double
import RoadNoise.Proofs.Edits
import RoadNoise.Survey

set_option autoImplicit false

namespace RoadNoise

/-! ## Runs -/

section Runs

variable {σ ι ρ : Type} (step : σ → ι → σ × ρ)

@[simp] theorem runFrom_nil (state : σ) : runFrom step state [] = (state, []) := rfl

@[simp] theorem runFrom_cons (state : σ) (i : ι) (rest : List ι) :
    runFrom step state (i :: rest) = ((runFrom step (step state i).1 rest).1,
      (step state i).2 :: (runFrom step (step state i).1 rest).2) := rfl

theorem runFrom_append (state : σ) (earlier later : List ι) :
    runFrom step state (earlier ++ later)
      = ((runFrom step (runFrom step state earlier).1 later).1,
        (runFrom step state earlier).2 ++ (runFrom step (runFrom step state earlier).1 later).2) := by
  induction earlier generalizing state with
  | nil => rfl
  | cons i earlier ih => simp [ih]

theorem length_runFrom (state : σ) (steps : List ι) :
    (runFrom step state steps).2.length = steps.length := by
  induction steps generalizing state with
  | nil => rfl
  | cons i steps ih => simp [ih]

end Runs

variable {α : Type} [Scalar α]

/-- The query needs the ground, so that a site has to be finished for it. -/
def Query.Due : Query α → Prop
  | .paths source receiver options => options.check source receiver = .ok ()
  | .sources road step => LineSource.checkStep step = .ok () ∧ road.hasLength = true
  | _ => True

/-- The reply to an edit that a draft takes. -/
def Edit.answer (d : Draft α) : Edit α → Reply α
  | .defaultGround factor => .number factor
  | .defaultElevation z => .number z
  | .building _ => .added d.buildings.size
  | .area _ => .added d.areas.size
  | _ => .done

namespace Site

/-! ## Single steps -/

theorem atomic_perform (s : Step α) : (perform s).Atomic := by
  cases s with
  | edit e =>
      refine e.atomic_work.bind fun number => ?_
      cases number with
      | some number => cases e <;> exact Work.sure_pure _
      | none =>
          cases e with
          | defaultGround factor => exact Work.sure_get.bind fun _ => Work.sure_pure _
          | defaultElevation z => exact Work.sure_get.bind fun _ => Work.sure_pure _
          | _ => exact Work.sure_pure _
  | finish => exact (sure_finish.bind fun _ => Work.sure_pure _).atomic
  | ask q => exact Work.quiet_get.bind fun s => (Work.quiet_lift (s.ask q)).atomic

/-- A refused step changes nothing. -/
theorem step_of_error {site : Site α} {s : Step α} {fault : Fault α}
    (refused : (site.step s).2 = .error fault) : (site.step s).1 = site :=
  atomic_perform s site fault refused

/-- A site that is finished refuses every edit. -/
theorem step_edit_of_finished {site : Site α} (finished : site.finished = true) (e : Edit α) :
    site.step (.edit e) = (site, .error .sceneClosed) := by
  simp [step, perform, Edit.reply, Work.on_bind, Edit.on_work, finished]

/-- Another takes an edit, unless the edit's own check refuses it. -/
theorem step_edit_of_open {site : Site α} (unfinished : site.finished = false) (e : Edit α) :
    site.step (.edit e) = match e.check with
      | .ok _ => ({ site with toDraft := site.toDraft.apply e }, .ok (e.answer site.toDraft))
      | .error fault => (site, .error fault) := by
  obtain ⟨draft, finished, relief, roofs, walls, buildingGrid, areaGrid, wallGrid⟩ := site
  obtain rfl : finished = false := unfinished
  have worked := e.on_work ⟨draft, false, relief, roofs, walls, buildingGrid, areaGrid, wallGrid⟩
  cases checked : e.check with
  | error fault =>
      rw [checked] at worked
      simp only [step, perform, Edit.reply, Work.on_bind, worked]
      rfl
  | ok _ =>
      rw [checked] at worked
      simp only [step, perform, Edit.reply, Work.on_bind, worked]
      cases e <;> rfl

theorem step_ask (site : Site α) (q : Query α) : site.step (.ask q) = (site, site.ask q) := rfl

/-- Finishing takes what is in the site. -/
theorem step_finish_of_open {site : Site α} (unfinished : site.finished = false) :
    (site.step .finish).1.finished = true ∧ (site.step .finish).1.scene = site.toDraft.finish := by
  obtain ⟨draft, finished, relief, roofs, walls, buildingGrid, areaGrid, wallGrid⟩ := site
  obtain rfl : finished = false := unfinished
  exact ⟨rfl, rfl⟩

theorem step_of_finished {site : Site α} (finished : site.finished = true) (s : Step α) :
    (site.step s).1 = site := by
  cases s with
  | edit e => rw [step_edit_of_finished finished]
  | finish => simp [step, perform, finish, Work.on_bind, finished]
  | ask q => rfl

/-- Only finishing makes a site finished. -/
theorem step_of_open {site : Site α} (unfinished : site.finished = false) {s : Step α}
    (another : s ≠ .finish) : (site.step s).1.finished = false := by
  cases s with
  | edit e =>
      rw [step_edit_of_open unfinished]
      cases e.check with
      | ok _ => exact unfinished
      | error fault => exact unfinished
  | finish => exact absurd rfl another
  | ask q => exact unfinished

theorem step_finish (site : Site α) : (site.step .finish).2 = .ok .done := by
  obtain ⟨draft, finished, relief, roofs, walls, buildingGrid, areaGrid, wallGrid⟩ := site
  cases finished <;> rfl

/-- What needs the ground is refused until there is one. -/
theorem ask_of_open {site : Site α} (unfinished : site.finished = false) {q : Query α}
    (due : q.Due) : site.ask q = .error .sceneOpen := by
  have refused : site.ensureFinished = .error .sceneOpen := by
    rw [ensureFinished, unfinished]
    rfl
  cases q with
  | paths source receiver options =>
      have checked : options.check source receiver = .ok () := due
      simp only [ask, checked, refused]
      rfl
  | sources road step =>
      obtain ⟨checked, long⟩ : LineSource.checkStep step = .ok () ∧ road.hasLength = true := due
      simp only [ask, checked, long, refused]
      rfl
  | _ =>
      simp only [ask, elevation, groundFactor, cut, obstructing, hides, obstructed, wallsNear,
        refused]
      rfl

/-- It is answered from then on. -/
theorem isOk_ask_of_finished {site : Site α} (finished : site.finished = true) {q : Query α}
    (due : q.Due) : (site.ask q).isOk := by
  have passed : site.ensureFinished = .ok () := by
    rw [ensureFinished, finished]
    rfl
  cases q with
  | paths source receiver options =>
      have checked : options.check source receiver = .ok () := due
      simp only [ask, checked, passed]
      rfl
  | sources road step =>
      obtain ⟨checked, long⟩ : LineSource.checkStep step = .ok () ∧ road.hasLength = true := due
      simp only [ask, checked, long, passed]
      rfl
  | obstructed p q =>
      simp only [ask, obstructed, obstructing, hides, cut, passed, bind, Except.bind, pure,
        Except.pure]
      cases (site.scene.obstructing p q).isEmpty <;> rfl
  | _ =>
      simp only [ask, elevation, groundFactor, cut, obstructing, hides, wallsNear, passed]
      rfl

/-! ## Runs -/

/-- The site after some steps. -/
def after (site : Site α) (steps : List (Step α)) : Site α := (site.run steps).1

/-- What some steps are answered with. -/
def replies (site : Site α) (steps : List (Step α)) : List (Outcome α (Reply α)) :=
  (site.run steps).2

/-- The steps that are not refused. -/
def accepted (site : Site α) (steps : List (Step α)) : List (Step α) :=
  ((steps.zip (site.replies steps)).filter fun e => e.2.isOk).map Prod.fst

@[simp] theorem after_nil (site : Site α) : site.after [] = site := rfl

@[simp] theorem after_cons (site : Site α) (s : Step α) (rest : List (Step α)) :
    site.after (s :: rest) = (site.step s).1.after rest := rfl

@[simp] theorem replies_cons (site : Site α) (s : Step α) (rest : List (Step α)) :
    site.replies (s :: rest) = (site.step s).2 :: (site.step s).1.replies rest := rfl

theorem after_append (site : Site α) (earlier later : List (Step α)) :
    site.after (earlier ++ later) = (site.after earlier).after later := by
  rw [after, run, runFrom_append]
  rfl

theorem replies_append (site : Site α) (earlier later : List (Step α)) :
    site.replies (earlier ++ later)
      = site.replies earlier ++ (site.after earlier).replies later := by
  rw [replies, run, runFrom_append]
  rfl

/-- A finished site stays what it is. -/
theorem after_of_finished {site : Site α} (finished : site.finished = true)
    (steps : List (Step α)) : site.after steps = site := by
  induction steps with
  | nil => rfl
  | cons s steps ih => rw [after_cons, step_of_finished finished, ih]

theorem finished_after_of_not_mem {site : Site α} (unfinished : site.finished = false)
    {steps : List (Step α)} (never : .finish ∉ steps) : (site.after steps).finished = false := by
  induction steps generalizing site with
  | nil => exact unfinished
  | cons s steps ih =>
      obtain ⟨another, later⟩ := List.ne_and_not_mem_of_not_mem_cons never
      exact ih (step_of_open unfinished (Ne.symm another)) later

theorem finished_after_of_mem (site : Site α) {steps : List (Step α)} (once : .finish ∈ steps) :
    (site.after steps).finished = true := by
  obtain ⟨earlier, later, rfl⟩ := List.append_of_mem once
  have finished : ((site.after earlier).step .finish).1.finished = true := by
    cases known : (site.after earlier).finished with
    | false => exact (step_finish_of_open known).1
    | true => rw [step_of_finished known, known]
  rw [after_append, after_cons, after_of_finished finished, finished]

/-- Without its refused steps a run ends in the same site, and the steps that are left are
answered as they were. -/
theorem run_accepted (site : Site α) (steps : List (Step α)) :
    site.run (site.accepted steps)
      = (site.after steps, (site.replies steps).filter Except.isOk) := by
  induction steps generalizing site with
  | nil => rfl
  | cons s steps ih =>
      cases reply : (site.step s).2 with
      | ok answer =>
          have kept : site.accepted (s :: steps) = s :: (site.step s).1.accepted steps := by
            simp [accepted, reply, Except.isOk, Except.toBool]
          have taken : site.run (s :: (site.step s).1.accepted steps)
              = (((site.step s).1.run ((site.step s).1.accepted steps)).1,
                (site.step s).2 :: ((site.step s).1.run ((site.step s).1.accepted steps)).2) :=
            rfl
          rw [kept, taken, ih, after_cons, replies_cons, reply]
          rfl
      | error fault =>
          have same := step_of_error reply
          have dropped : site.accepted (s :: steps) = site.accepted steps := by
            simp [accepted, reply, same, Except.isOk, Except.toBool]
          rw [dropped, ih, after_cons, replies_cons, reply, same]
          rfl

/-! ## From nothing -/

/-- A step of a run from nothing that ends in `last`.  It comes after the steps `earlier` and
is answered with `reply`. -/
structure StepOf (last : Site α) (earlier : List (Step α)) (s : Step α)
    (reply : Outcome α (Reply α)) : Prop where
  /-- A refused step leaves the site as it was. -/
  unchanged : ∀ fault, reply = .error fault →
    empty.after (earlier ++ [s]) = empty.after earlier
  /-- What needs the ground cannot be asked before there is one. -/
  tooEarly : .finish ∉ earlier → ∀ q, s = .ask q → q.Due → reply = .error .sceneOpen
  /-- Before the site is finished an edit is refused for its own sake only. -/
  checked : .finish ∉ earlier → ∀ e, s = .edit e →
    ∀ fault, reply = .error fault ↔ e.check = .error fault
  /-- An edit that is not refused tells the number of what it adds, or the value it sets. -/
  added : .finish ∉ earlier → ∀ e, s = .edit e → e.check = .ok () →
    reply = .ok (e.answer (empty.after earlier).toDraft)
  /-- Finishing is never refused. -/
  finishes : s = .finish → reply = .ok .done
  /-- A finished site cannot be edited. -/
  tooLate : .finish ∈ earlier → ∀ e, s = .edit e → reply = .error .sceneClosed
  /-- Nothing changes a finished site, and finishing again does not either. -/
  settled : .finish ∈ earlier → empty.after earlier = last ∧
    empty.after (earlier ++ [s]) = last
  /-- What is asked of a finished site is answered as it would be at the end. -/
  answered : .finish ∈ earlier → ∀ q, s = .ask q →
    reply = last.ask q ∧ (q.Due → reply.isOk)

/-- One more step after others and before others. -/
theorem stepOf (earlier later : List (Step α)) (s : Step α) :
    StepOf (empty.after (earlier ++ s :: later)) earlier s ((empty.after earlier).step s).2 := by
  have next : empty.after (earlier ++ [s]) = ((empty.after earlier).step s).1 := by
    rw [after_append, after_cons, after_nil]
  have last : empty.after (earlier ++ s :: later)
      = ((empty.after earlier).step s).1.after later := by
    rw [after_append, after_cons]
  rw [last]
  have isOpen : .finish ∉ earlier → (empty.after earlier : Site α).finished = false :=
    finished_after_of_not_mem rfl
  have isFinished : .finish ∈ earlier → (empty.after earlier : Site α).finished = true :=
    finished_after_of_mem empty
  constructor
  · intro fault refused
    rw [next, step_of_error refused]
  · rintro never q rfl due
    exact ask_of_open (isOpen never) due
  · rintro never e rfl fault
    rw [step_edit_of_open (isOpen never)]
    cases e.check <;> simp
  · rintro never e rfl checked
    rw [step_edit_of_open (isOpen never), checked]
  · rintro rfl
    exact step_finish _
  · rintro once e rfl
    rw [step_edit_of_finished (isFinished once)]
  · intro once
    rw [next, step_of_finished (isFinished once), after_of_finished (isFinished once)]
    exact ⟨rfl, rfl⟩
  · rintro once q rfl
    rw [step_ask, after_of_finished (isFinished once)]
    exact ⟨rfl, isOk_ask_of_finished (isFinished once)⟩

/-- In every run from nothing, each step is answered for what came before it: a refused one
leaves the whole site as it was, before it is finished nothing can be asked about its ground
and only edits that make no sense are refused, and afterwards it cannot be edited, does not
change and is answered for good.  Without the refused steps the run ends in the same site, with
the same replies to the others. -/
theorem traceless (steps : List (Step α)) :
    (∀ earlier s later, steps = earlier ++ s :: later →
      ∃ reply, (empty.replies steps)[earlier.length]? = some reply ∧
        StepOf (empty.after steps) earlier s reply) ∧
    empty.run (empty.accepted steps)
      = (empty.after steps, (empty.replies steps).filter Except.isOk) := by
  refine ⟨?_, run_accepted empty steps⟩
  rintro earlier s later rfl
  refine ⟨((empty.after earlier).step s).2, ?_, stepOf earlier later s⟩
  have counted : (empty.replies earlier : List (Outcome α (Reply α))).length = earlier.length :=
    length_runFrom step empty earlier
  rw [replies_append, List.getElem?_append_right (by rw [counted]), counted, Nat.sub_self]
  rfl

end Site

/-- A shed, six metres above the ground. -/
def shed : Building Float where
  outline := ⟨[⟨10, 10, 0⟩, ⟨20, 10, 0⟩, ⟨20, 20, 0⟩], [], ⟨10, 10, 20, 20⟩⟩
  height := .relative 6
  absorption := none

/-- A shed among steps that are refused: its ground is asked for too early, the first time its
walls take up more sound than there is, a line has one point only, and a meadow comes late. -/
def hastySteps : List (Step Float) :=
  [.ask (.elevation ⟨15, 12, 0⟩), .edit (.building { shed with absorption := some 1.5 }),
    .edit (.building shed), .edit (.topography [⟨0, 0, 7⟩]), .finish,
    .edit (.area ⟨shed.outline, 1⟩), .ask (.elevation ⟨15, 12, 0⟩)]

theorem hasty_settled :
    Site.empty.accepted hastySteps
      = [.edit (.building shed), .finish, .ask (.elevation ⟨15, 12, 0⟩)] ∧
    Site.empty.run [.edit (.building shed), .finish, .ask (.elevation ⟨15, 12, 0⟩)]
      = (Site.empty.after hastySteps, [.ok (.added 0), .ok .done, .ok (.number 0)]) ∧
    (Site.empty.replies hastySteps)[3]?
      = some (.error (.invalid (.tooFew "topographic line" 2 "points" 1))) ∧
    Site.empty.after (hastySteps.take 4) = Site.empty.after (hastySteps.take 3) := by
  obtain ⟨each, settled⟩ := Site.traceless hastySteps
  have accepted : Site.empty.accepted hastySteps
      = [.edit (.building shed), .finish, .ask (.elevation ⟨15, 12, 0⟩)] := rfl
  have replies : (Site.empty.replies hastySteps).filter Except.isOk
      = [.ok (.added 0), .ok .done, .ok (.number 0)] := rfl
  have refused : (Site.empty.replies hastySteps)[3]?
      = some (.error (.invalid (.tooFew "topographic line" 2 "points" 1))) := rfl
  rw [accepted, replies] at settled
  obtain ⟨reply, isReply, line⟩ :=
    each (hastySteps.take 3) (.edit (.topography [⟨0, 0, 7⟩])) (hastySteps.drop 4) rfl
  have same := Option.some.inj (isReply.symm.trans refused)
  exact ⟨accepted, settled, refused, line.unchanged _ same⟩

/-! ## Surveys -/

namespace Site

omit [Scalar α] in
theorem survey_of_finished {site : Site α} (finished : site.finished = true) :
    site.survey = .scene site.scene := by
  rw [survey, finished]
  rfl

omit [Scalar α] in
theorem survey_of_open {site : Site α} (unfinished : site.finished = false) :
    site.survey = .draft site.toDraft := by
  rw [survey, unfinished]
  rfl

/-- Answers depend on what a site shows only. -/
theorem ask_congr {site other : Site α} (finished : site.finished = other.finished)
    (scene : other.finished = true → site.scene = other.scene) (q : Query α) :
    site.ask q = other.ask q := by
  cases known : other.finished with
  | true =>
      have passed : site.ensureFinished = other.ensureFinished := by
        rw [ensureFinished, ensureFinished, finished]
      cases q <;> simp only [ask, elevation, groundFactor, cut, obstructing, hides, obstructed,
        wallsNear, passed, scene known]
  | false =>
      have refused : site.ensureFinished = .error .sceneOpen := by
        rw [ensureFinished, finished, known]
        rfl
      have refused' : other.ensureFinished = .error .sceneOpen := by
        rw [ensureFinished, known]
        rfl
      cases q <;> simp only [ask, elevation, groundFactor, cut, obstructing, hides, obstructed,
        wallsNear, refused, refused', bind, Except.bind]

end Site

namespace Survey

@[simp] theorem survey_site (survey : Survey α) : survey.site.survey = survey := by
  cases survey <;> rfl

theorem step_eq (survey : Survey α) (s : Step α) :
    survey.step s = ((survey.site.step s).1.survey, (survey.site.step s).2) := rfl

/-- A draft takes an edit, unless its own check refuses it. -/
theorem step_edit_draft (d : Draft α) (e : Edit α) :
    (Survey.draft d).step (.edit e) = match e.check with
      | .ok _ => (.draft (d.apply e), .ok (e.answer d))
      | .error fault => (.draft d, .error fault) := by
  rw [step_eq, site, Site.step_edit_of_open rfl]
  cases e.check <;> rfl

theorem step_finish_draft (d : Draft α) :
    (Survey.draft d).step .finish = (.scene d.finish, .ok .done) := by
  obtain ⟨finished, made⟩ := Site.step_finish_of_open (rfl : (Site.ofDraft d).finished = false)
  rw [step_eq, site, Site.step_finish, Site.survey_of_finished finished, made]
  rfl

end Survey

namespace Site

/-- A step changes what a site shows as it would change a site that shows no more than that. -/
theorem step_survey (site : Site α) (s : Step α) :
    site.survey.step s = ((site.step s).1.survey, (site.step s).2) := by
  cases known : site.finished with
  | true =>
      have shown := survey_of_finished known
      have closed : (Survey.scene site.scene).site.finished = true := rfl
      cases s with
      | edit e =>
          rw [Survey.step_eq, shown, step_edit_of_finished known, step_edit_of_finished closed,
            Survey.survey_site, shown]
      | finish =>
          rw [Survey.step_eq, shown, step_finish, step_finish, step_of_finished known,
            step_of_finished closed, Survey.survey_site, shown]
      | ask q =>
          have same : (Survey.scene site.scene).site.ask q = site.ask q :=
            ask_congr (closed.trans known.symm) (fun _ => rfl) q
          rw [Survey.step_eq, shown, step_ask, step_ask, Survey.survey_site, shown, same]
  | false =>
      have shown := survey_of_open known
      cases s with
      | edit e =>
          rw [shown, Survey.step_edit_draft, step_edit_of_open known]
          cases e.check with
          | ok _ => simp [survey, known]
          | error fault => simp [shown]
      | finish =>
          obtain ⟨finished, made⟩ := step_finish_of_open known
          rw [shown, Survey.step_finish_draft, step_finish, survey_of_finished finished, made]
      | ask q =>
          have same : (Survey.draft site.toDraft).site.ask q = site.ask q :=
            ask_congr known.symm (fun closed => by simp [known] at closed) q
          rw [Survey.step_eq, shown, step_ask, step_ask, Survey.survey_site, shown, same]

/-- So do some steps. -/
theorem run_survey (site : Site α) (steps : List (Step α)) :
    site.survey.run steps = ((site.after steps).survey, site.replies steps) := by
  induction steps generalizing site with
  | nil => rfl
  | cons s steps ih =>
      have first := site.step_survey s
      simp only [Survey.run] at ih ⊢
      rw [runFrom_cons, first, ih, after_cons, replies_cons]

end Site

namespace Survey

/-- The survey after some steps. -/
def after (survey : Survey α) (steps : List (Step α)) : Survey α := (survey.run steps).1

/-- What some steps are answered with. -/
def replies (survey : Survey α) (steps : List (Step α)) : List (Outcome α (Reply α)) :=
  (survey.run steps).2

@[simp] theorem after_nil (survey : Survey α) : survey.after [] = survey := rfl

@[simp] theorem after_cons (survey : Survey α) (s : Step α) (rest : List (Step α)) :
    survey.after (s :: rest) = (survey.step s).1.after rest := rfl

@[simp] theorem replies_cons (survey : Survey α) (s : Step α) (rest : List (Step α)) :
    survey.replies (s :: rest) = (survey.step s).2 :: (survey.step s).1.replies rest := rfl

theorem after_append (survey : Survey α) (earlier later : List (Step α)) :
    survey.after (earlier ++ later) = (survey.after earlier).after later := by
  rw [after, run, runFrom_append]
  rfl

theorem replies_append (survey : Survey α) (earlier later : List (Step α)) :
    survey.replies (earlier ++ later)
      = survey.replies earlier ++ (survey.after earlier).replies later := by
  rw [replies, run, runFrom_append]
  rfl

theorem length_replies (survey : Survey α) (steps : List (Step α)) :
    (survey.replies steps).length = steps.length := length_runFrom step survey steps

end Survey

end RoadNoise
