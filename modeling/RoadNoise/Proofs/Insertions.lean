/-
# RoadNoise.Proofs.Insertions -- what a scene keeps of how its draft was filled

An edit adds a building, an area or topographic points, or it sets one of three defaults.
So a draft holds what its edits add, in their order, and the values that were set last
(`Draft.added_foldl`, `Draft.set_foldl`), and how edits of different kinds are mixed leaves
no trace in it but one: the order of all its topographic points.  Finishing sorts them.
Points that share no planar position have one order, so that trace is lost as well, and
two drafts that were filled with the same things become the same scene.

Roofs are laid on the ground and walls take the default absorption only when a draft is
finished, which is why it does not matter when a default is set either.
-/
import RoadNoise.Proofs.Comparison
import RoadNoise.Proofs.Traceless

set_option autoImplicit false

namespace RoadNoise

variable {α : Type}

/-! ## What edits add and set -/

namespace Edit

/-- The buildings that an edit adds: one or none. -/
def buildings : Edit α → List (Building α)
  | .building b => [b]
  | _ => []

/-- The ground areas that an edit adds: one or none. -/
def areas : Edit α → List (GroundArea α)
  | .area a => [a]
  | _ => []

/-- The topographic points that an edit adds. -/
def points : Edit α → List (Point α)
  | .topography line => line
  | _ => []

/-- The default that an edit sets for the absorption of the ground. -/
def ground? : Edit α → Option α
  | .defaultGround factor => some factor
  | _ => none

/-- The default that an edit sets for the elevation of the ground. -/
def elevation? : Edit α → Option α
  | .defaultElevation z => some z
  | _ => none

/-- The default that an edit sets for the absorption of walls. -/
def wall? : Edit α → Option α
  | .defaultWall absorption => some absorption
  | _ => none

/-- The value that the last of some edits sets, `initial` where none does. -/
def lastSet (value? : Edit α → Option α) (initial : α) (edits : List (Edit α)) : α :=
  (edits.filterMap value?).getLastD initial

/-- The defaults after some edits of an empty draft. -/
def defaults [Scalar α] (edits : List (Edit α)) : Defaults α :=
  { ground := lastSet ground? Draft.empty.defaults.ground edits
    elevation := lastSet elevation? Draft.empty.defaults.elevation edits
    wall := lastSet wall? Draft.empty.defaults.wall edits }

/-- Edits that add the same buildings and the same areas in the same order, the same
topographic points in any order, and leave the same defaults. -/
structure Alike [Scalar α] (first second : List (Edit α)) : Prop where
  buildings : first.flatMap Edit.buildings = second.flatMap Edit.buildings
  areas : first.flatMap Edit.areas = second.flatMap Edit.areas
  points : (first.flatMap Edit.points).Perm (second.flatMap Edit.points)
  defaults : Edit.defaults first = Edit.defaults second

end Edit

/-! ## Drafts -/

namespace Draft

/-- Where each edit puts what it adds behind what is there, all of them do. -/
theorem added_foldl {β : Type} (read : Draft α → List β) {add : Edit α → List β}
    (step : ∀ d e, read (d.apply e) = read d ++ add e) (d : Draft α) (edits : List (Edit α)) :
    read (edits.foldl apply d) = read d ++ edits.flatMap add := by
  induction edits generalizing d with
  | nil => simp
  | cons e edits ih => rw [List.foldl_cons, ih, step, List.flatMap_cons, List.append_assoc]

/-- Where each edit sets a value or leaves it, the last value that is set stays. -/
theorem set_foldl (read : Draft α → α) (value? : Edit α → Option α)
    (step : ∀ d e, read (d.apply e) = (value? e).getD (read d)) (d : Draft α)
    (edits : List (Edit α)) :
    read (edits.foldl apply d) = Edit.lastSet value? (read d) edits := by
  induction edits generalizing d with
  | nil => rfl
  | cons e edits ih =>
      rw [List.foldl_cons, ih, step, Edit.lastSet, Edit.lastSet, List.filterMap_cons]
      cases value? e with
      | none => rfl
      | some value => exact List.getLastD_cons.symm

variable [Scalar α]

/-- The draft that edits make of nothing. -/
def filled (edits : List (Edit α)) : Draft α := edits.foldl apply .empty

theorem buildings_filled (edits : List (Edit α)) :
    (filled edits).buildings.toList = edits.flatMap Edit.buildings :=
  added_foldl (fun d => d.buildings.toList)
    (fun d e => by cases e <;> simp [apply, Edit.buildings]) .empty edits

theorem areas_filled (edits : List (Edit α)) :
    (filled edits).areas.toList = edits.flatMap Edit.areas :=
  added_foldl (fun d => d.areas.toList)
    (fun d e => by cases e <;> simp [apply, Edit.areas]) .empty edits

theorem topography_filled (edits : List (Edit α)) :
    (filled edits).topography = edits.flatMap Edit.points :=
  added_foldl Draft.topography
    (fun d e => by cases e <;> simp [apply, Edit.points]) .empty edits

theorem defaults_filled (edits : List (Edit α)) : (filled edits).defaults = Edit.defaults edits := by
  have ground := set_foldl (fun d => d.defaults.ground) Edit.ground?
    (fun d e => by cases e <;> rfl) .empty edits
  have elevation := set_foldl (fun d => d.defaults.elevation) Edit.elevation?
    (fun d e => by cases e <;> rfl) .empty edits
  have wall := set_foldl (fun d => d.defaults.wall) Edit.wall?
    (fun d e => by cases e <;> rfl) .empty edits
  rw [Edit.defaults, ← ground, ← elevation, ← wall]
  rfl

/-- Drafts that differ in the order of their topographic points only become one scene. -/
theorem finish_eq_of_perm [Scalar.Ordered α] {d d' : Draft α}
    (buildings : d.buildings = d'.buildings) (areas : d.areas = d'.areas)
    (defaults : d.defaults = d'.defaults) (points : d.topography.Perm d'.topography)
    (finite : ∀ p ∈ d.topography, p.isFinite = true)
    (apart : d.topography.Pairwise fun p q => p.samePlanar q = false) : d.finish = d'.finish := by
  have relief : Relief.ofPoints? d.topography = Relief.ofPoints? d'.topography := by
    simp only [Relief.ofPoints?, Relief.verticesOf_eq_of_perm points finite apart]
  simp only [finish, points.isEmpty_eq, relief, buildings, areas, defaults]

end Draft

variable [Scalar α]

/-! ## Surveys -/

namespace Survey

/-- Edits that are all accepted fill the draft. -/
theorem after_edits {d : Draft α} {edits : List (Edit α)}
    (taken : ∀ reply ∈ (Survey.draft d).replies (edits.map .edit), reply.isOk) :
    (∀ e ∈ edits, e.check = .ok ()) ∧
      (Survey.draft d).after (edits.map .edit) = .draft (edits.foldl Draft.apply d) := by
  induction edits generalizing d with
  | nil => simp
  | cons e edits ih =>
      rw [List.map_cons, replies_cons, List.forall_mem_cons, step_edit_draft] at taken
      rw [List.map_cons, after_cons, step_edit_draft, List.forall_mem_cons]
      cases checked : e.check with
      | error fault => simp [checked, Except.isOk, Except.toBool] at taken
      | ok _ =>
          rw [checked] at taken
          obtain ⟨later, filled⟩ := ih taken.2
          exact ⟨⟨rfl, later⟩, filled⟩

theorem isFinite_of_checked {edits : List (Edit α)} (checked : ∀ e ∈ edits, e.check = .ok ()) :
    ∀ p ∈ edits.flatMap Edit.points, p.isFinite = true := by
  intro p isPoint
  obtain ⟨e, isEdit, isPoint⟩ := List.mem_flatMap.1 isPoint
  cases e with
  | topography line =>
      obtain ⟨-, finite⟩ := check_bind_eq_ok_iff.1 (checked _ isEdit)
      exact List.all_eq_true.1 (require_eq_ok_iff.1 finite) p isPoint
  | _ => exact absurd isPoint List.not_mem_nil

/-- After edits that are all accepted, finishing gives the scene of the draft they fill. -/
theorem after_finish {edits : List (Edit α)}
    (taken : ∀ reply ∈ Survey.empty.replies (edits.map .edit), reply.isOk) :
    Survey.empty.after (edits.map .edit ++ [.finish]) = .scene (Draft.filled edits).finish := by
  have filled : Survey.empty.after (edits.map .edit) = .draft (Draft.filled edits) :=
    (after_edits taken).2
  rw [after_append, filled, after_cons, after_nil, step_finish_draft]

/-- Accepted edits that say the same in some other order, or at some other time, make the
same scene when they are finished, and from then on every step has the same reply, unless
two topographic points share a planar position.  The scene has what was added, in order, and
the values that were set last. -/
theorem finished_alike [Scalar.Ordered α] {first second : List (Edit α)}
    (taken : ∀ reply ∈ Survey.empty.replies (first.map .edit), reply.isOk)
    (taken' : ∀ reply ∈ Survey.empty.replies (second.map .edit), reply.isOk)
    (alike : Edit.Alike first second)
    (apart : (first.flatMap Edit.points).Pairwise fun p q => p.samePlanar q = false) :
    ∃ s : Scene α, Survey.empty.after (first.map .edit ++ [.finish]) = .scene s ∧
      Survey.empty.after (second.map .edit ++ [.finish]) = .scene s ∧
      s.buildings.toList = first.flatMap Edit.buildings ∧
      s.areas.toList = first.flatMap Edit.areas ∧
      s.defaults = Edit.defaults first ∧
      ∀ later : List (Step α),
        (Survey.empty.replies (first.map .edit ++ .finish :: later)).drop first.length
          = (Survey.empty.replies (second.map .edit ++ .finish :: later)).drop second.length := by
  obtain ⟨checked, filled⟩ := after_edits taken
  obtain ⟨-, filled'⟩ := after_edits taken'
  rw [← Draft.filled] at filled filled'
  have scenes : (Draft.filled first).finish = (Draft.filled second).finish := by
    apply Draft.finish_eq_of_perm
    · rw [← Array.toList_inj, Draft.buildings_filled, Draft.buildings_filled, alike.buildings]
    · rw [← Array.toList_inj, Draft.areas_filled, Draft.areas_filled, alike.areas]
    · rw [Draft.defaults_filled, Draft.defaults_filled, alike.defaults]
    · rw [Draft.topography_filled, Draft.topography_filled]
      exact alike.points
    · rw [Draft.topography_filled]
      exact isFinite_of_checked checked
    · rw [Draft.topography_filled]
      exact apart
  have answered : ∀ (edits : List (Edit α)) (later : List (Step α)),
      (Survey.empty.replies (edits.map .edit ++ .finish :: later)).drop edits.length
        = ((Survey.empty.after (edits.map .edit)).replies (.finish :: later)) := by
    intro edits later
    rw [replies_append, List.drop_left' (by rw [length_replies, List.length_map])]
  refine ⟨(Draft.filled first).finish, after_finish taken, ?_, Draft.buildings_filled first,
    Draft.areas_filled first, Draft.defaults_filled first, fun later => ?_⟩
  · rw [after_finish taken', scenes]
  · rw [answered, answered, Survey.empty, filled, filled']
    rw [replies_cons, replies_cons, step_finish_draft, step_finish_draft, scenes]

end Survey

/-! ## Two ways to fill a draft with doubles -/

/-- Defaults first, then two topographic lines with the shed between them. -/
def tidyEdits : List (Edit Float) :=
  [.defaultElevation 3, .defaultWall 0.5, .topography [⟨0, 0, 1⟩, ⟨100, 0, 2⟩], .building shed,
    .topography [⟨0, 100, 3⟩, ⟨50.5, 50, 0.25⟩]]

/-- The shed first, the points on other lines, and the defaults at last. -/
def untidyEdits : List (Edit Float) :=
  [.defaultWall 0.9, .building shed, .topography [⟨50.5, 50, 0.25⟩, ⟨0, 0, 1⟩], .defaultWall 0.5,
    .topography [⟨0, 100, 3⟩, ⟨100, 0, 2⟩], .defaultElevation 3]

theorem untidy_finished : ∃ s : Scene Float,
    Survey.empty.after (tidyEdits.map .edit ++ [.finish]) = .scene s ∧
    Survey.empty.after (untidyEdits.map .edit ++ [.finish]) = .scene s ∧
    s.buildings.toList = [shed] ∧ s.defaults = ⟨0, 3, 0.5⟩ := by
  have tidy : Edit.defaults tidyEdits = ⟨0, 3, 0.5⟩ := rfl
  have untidy : Edit.defaults untidyEdits = ⟨0, 3, 0.5⟩ := rfl
  have points : (tidyEdits.flatMap Edit.points).Perm (untidyEdits.flatMap Edit.points) :=
    (@List.perm_append_comm _ [_, _, _] [_]).trans (.cons _ (.cons _ (.swap _ _ _)))
  have alike : Edit.Alike tidyEdits untidyEdits :=
    { buildings := by simp [tidyEdits, untidyEdits, Edit.buildings]
      areas := by simp [tidyEdits, untidyEdits, Edit.areas]
      points := points
      defaults := tidy.trans untidy.symm }
  obtain ⟨s, finished, finished', buildings, -, defaults, -⟩ :=
    Survey.finished_alike (by decide) (by decide) alike (by decide)
  exact ⟨s, finished, finished', buildings, defaults.trans tidy⟩

end RoadNoise
