/-
# RoadNoise.Proofs.Edits -- changes that fail leave nothing behind

Work on a site may fail after it has changed the site.  The seven changes do not: each of
them looks at the flag and at its values first, which is work that leaves the site alone
(`Work.Quiet`), and what it does after that cannot fail (`Work.Sure`).  So a change that fails
leaves the site as it was (`Work.Atomic`), and no two of its checks and no check and the
change itself may come in another order for that.

What the checks of an edit ask for does not depend on the site (`Edit.check`), and neither does
what is changed depend on the checks (`Draft.apply`): an edit is one after the other
(`Edit.on_work`, `Draft.edit_eq`).
-/
import RoadNoise.Proofs.Exact
import RoadNoise.Scene.Edit

set_option autoImplicit false

namespace RoadNoise

variable {α β γ : Type}

/-! ## Work -/

namespace Work

theorem on_bind (work : Work α β) (rest : β → Work α γ) (site : Site α) :
    (work >>= rest).on site = match work.on site with
      | (.ok b, next) => (rest b).on next
      | (.error fault, next) => (.error fault, next) := by
  obtain ⟨outcome, next, done⟩ : ∃ outcome next, work.on site = (outcome, next) := ⟨_, _, rfl⟩
  have split : (work >>= rest).on site
      = (ExceptT.bindCont rest (work.on site).1).run (work.on site).2 := rfl
  rw [split, done]
  cases outcome <;> rfl

@[simp] theorem on_pure (b : β) (site : Site α) : (pure b : Work α β).on site = (.ok b, site) := rfl

@[simp] theorem on_throw (fault : Fault α) (site : Site α) :
    (throw fault : Work α β).on site = (.error fault, site) := rfl

@[simp] theorem on_get (site : Site α) : (get : Work α (Site α)).on site = (.ok site, site) := rfl

@[simp] theorem on_set (next site : Site α) : (set next : Work α PUnit).on site = (.ok ⟨⟩, next) :=
  rfl

@[simp] theorem on_modify (change : Site α → Site α) (site : Site α) :
    (modify change : Work α PUnit).on site = (.ok ⟨⟩, change site) := rfl

@[simp] theorem on_lift (outcome : Outcome α β) (site : Site α) :
    (liftM outcome : Work α β).on site = (outcome, site) := rfl

/-- Whether it fails or not, the site is left as it was. -/
def Quiet (work : Work α β) : Prop := ∀ site, (work.on site).2 = site

/-- It does not fail. -/
def Sure (work : Work α β) : Prop := ∀ site fault, (work.on site).1 ≠ .error fault

/-- Where it fails the site is left as it was. -/
def Atomic (work : Work α β) : Prop :=
  ∀ site fault, (work.on site).1 = .error fault → (work.on site).2 = site

theorem Quiet.atomic {work : Work α β} (quiet : work.Quiet) : work.Atomic :=
  fun site _ _ => quiet site

theorem Sure.atomic {work : Work α β} (sure : work.Sure) : work.Atomic :=
  fun site fault failed => absurd failed (sure site fault)

/-- What comes before the site is changed may fail. -/
theorem Quiet.bind {work : Work α β} {rest : β → Work α γ} (quiet : work.Quiet)
    (later : ∀ b, (rest b).Atomic) : (work >>= rest).Atomic := by
  intro site fault failed
  have same := quiet site
  rw [on_bind] at failed ⊢
  rcases done : work.on site with ⟨outcome, next⟩
  rw [done] at failed same
  cases outcome with
  | error _ => exact same
  | ok b =>
      obtain rfl : next = site := same
      exact later b next fault failed

/-- What comes after the site is changed may not. -/
theorem Atomic.bind {work : Work α β} {rest : β → Work α γ} (atomic : work.Atomic)
    (later : ∀ b, (rest b).Sure) : (work >>= rest).Atomic := by
  intro site fault failed
  have same := atomic site
  rw [on_bind] at failed ⊢
  rcases done : work.on site with ⟨outcome, next⟩
  rw [done] at failed same
  cases outcome with
  | error _ => exact same _ rfl
  | ok b => exact absurd failed (later b next fault)

theorem Sure.bind {work : Work α β} {rest : β → Work α γ} (sure : work.Sure)
    (later : ∀ b, (rest b).Sure) : (work >>= rest).Sure := by
  intro site fault failed
  have certain := sure site
  rw [on_bind] at failed
  rcases done : work.on site with ⟨outcome, next⟩
  rw [done] at failed certain
  cases outcome with
  | error _ => exact certain _ rfl
  | ok b => exact later b next fault failed

theorem quiet_lift (outcome : Outcome α β) : Quiet (liftM outcome : Work α β) := fun _ => rfl

theorem quiet_get : Quiet (get : Work α (Site α)) := fun _ => rfl

theorem sure_pure (b : β) : Sure (pure b : Work α β) := by
  intro site fault failed
  simp at failed

theorem sure_get : Sure (get : Work α (Site α)) := by
  intro site fault failed
  simp at failed

theorem sure_set (next : Site α) : Sure (set next : Work α PUnit) := by
  intro site fault failed
  simp at failed

theorem sure_modify (change : Site α → Site α) : Sure (modify change : Work α PUnit) := by
  intro site fault failed
  simp at failed

end Work

/-! ## The seven changes -/

namespace Site

theorem on_ensureOpen (site : Site α) :
    (ensureOpen : Work α Unit).on site
      = (if site.finished then .error .sceneClosed else .ok (), site) := by
  simp only [ensureOpen, Work.on_bind, Work.on_get]
  cases site.finished <;> rfl

theorem quiet_ensureOpen : Work.Quiet (ensureOpen : Work α Unit) := by
  intro site
  rw [on_ensureOpen]

variable [Scalar α]

theorem atomic_setDefaultGround (factor : α) : (setDefaultGround factor).Atomic := by
  refine quiet_ensureOpen.bind fun _ => ?_
  refine (Work.quiet_lift _).bind fun _ => ?_
  exact (Work.sure_modify _).atomic

theorem atomic_setDefaultElevation (z : α) : (setDefaultElevation z).Atomic := by
  refine quiet_ensureOpen.bind fun _ => ?_
  refine (Work.quiet_lift _).bind fun _ => ?_
  exact (Work.sure_modify _).atomic

theorem atomic_setDefaultWall (absorption : α) : (setDefaultWall absorption).Atomic := by
  refine quiet_ensureOpen.bind fun _ => ?_
  refine (Work.quiet_lift _).bind fun _ => ?_
  exact (Work.sure_modify _).atomic

theorem atomic_addBuilding (b : Building α) : (addBuilding b).Atomic := by
  obtain ⟨outline, height, absorption⟩ := b
  have added : ∀ change : Site α → Site α, Work.Atomic (do
      modify change
      return (← get).buildings.size - 1) := by
    intro change
    refine Work.Sure.atomic ((Work.sure_modify _).bind fun _ => ?_)
    exact Work.sure_get.bind fun _ => Work.sure_pure _
  refine quiet_ensureOpen.bind fun _ => ?_
  refine (Work.quiet_lift _).bind fun _ => ?_
  cases absorption with
  | none => exact added _
  | some a => exact (Work.quiet_lift _).bind fun _ => added _

theorem atomic_addArea (a : GroundArea α) : (addArea a).Atomic := by
  refine quiet_ensureOpen.bind fun _ => ?_
  refine (Work.quiet_lift _).bind fun _ => ?_
  refine Work.Sure.atomic ((Work.sure_modify _).bind fun _ => ?_)
  exact Work.sure_get.bind fun _ => Work.sure_pure _

theorem atomic_addTopography (line : List (Point α)) : (addTopography line).Atomic := by
  refine quiet_ensureOpen.bind fun _ => ?_
  refine (Work.quiet_lift _).bind fun _ => ?_
  refine (Work.quiet_lift _).bind fun _ => ?_
  exact (Work.sure_modify _).atomic

theorem sure_finish : (finish : Work α Unit).Sure := by
  refine Work.sure_get.bind fun s => ?_
  cases s.finished with
  | true => exact Work.sure_pure _
  | false => exact Work.sure_set _

end Site

variable [Scalar α]

/-! ## What edits check and what they change -/

namespace Edit

/-- Passes when the edit makes sense, whatever the draft. -/
def check : Edit α → Outcome α Unit
  | .defaultGround factor => demand .invalid "default ground absorption" .unitInterval factor
  | .defaultElevation z =>
      require (Scalar.isFinite z) (.invalid (.notFinite "default elevation" (some z)))
  | .defaultWall absorption => demand .invalid "default wall absorption" .unitInterval absorption
  | .building b => do
      b.height.check
      match b.absorption with
      | some a => demand .invalid "wall absorption" .unitInterval a
      | none => return ()
  | .area a => demand .invalid "ground absorption" .unitInterval a.factor
  | .topography line => do
      require (2 ≤ line.length) (.invalid (.tooFew "topographic line" 2 "points" line.length))
      require (line.all Point.isFinite) (.invalid (.strayCoordinate "topographic line"))

/-- The number of what an edit adds to a draft. -/
def number? (d : Draft α) : Edit α → Option Nat
  | .building _ => some d.buildings.size
  | .area _ => some d.areas.size
  | _ => none

end Edit

namespace Draft

/-- The draft with what an edit changes. -/
def apply (d : Draft α) : Edit α → Draft α
  | .defaultGround factor => { d with defaults := { d.defaults with ground := factor } }
  | .defaultElevation z => { d with defaults := { d.defaults with elevation := z } }
  | .defaultWall absorption => { d with defaults := { d.defaults with wall := absorption } }
  | .building b => { d with buildings := d.buildings.push b }
  | .area a => { d with areas := d.areas.push a }
  | .topography line => { d with topography := d.topography ++ line }

end Draft

namespace Edit

theorem atomic_work (e : Edit α) : e.work.Atomic := by
  cases e with
  | defaultGround factor =>
      exact (Site.atomic_setDefaultGround factor).bind fun _ => Work.sure_pure _
  | defaultElevation z => exact (Site.atomic_setDefaultElevation z).bind fun _ => Work.sure_pure _
  | defaultWall absorption =>
      exact (Site.atomic_setDefaultWall absorption).bind fun _ => Work.sure_pure _
  | building b => exact (Site.atomic_addBuilding b).bind fun _ => Work.sure_pure _
  | area a => exact (Site.atomic_addArea a).bind fun _ => Work.sure_pure _
  | topography line => exact (Site.atomic_addTopography line).bind fun _ => Work.sure_pure _

/-- A finished site refuses an edit.  Another takes it, unless its own check refuses it. -/
theorem on_work (e : Edit α) (site : Site α) :
    e.work.on site = if site.finished then (.error .sceneClosed, site) else
      match e.check with
      | .ok _ => (.ok (e.number? site.toDraft), { site with toDraft := site.toDraft.apply e })
      | .error fault => (.error fault, site) := by
  obtain ⟨draft, finished, relief, roofs, walls, buildingGrid, areaGrid, wallGrid⟩ := site
  cases finished with
  | true =>
      cases e <;> simp [work, Site.setDefaultGround, Site.setDefaultElevation, Site.setDefaultWall,
        Site.addBuilding, Site.addArea, Site.addTopography, Work.on_bind, Site.on_ensureOpen]
  | false =>
      -- one case for each way in which the checks can end
      cases e with
      | defaultGround factor =>
          simp only [work, Site.setDefaultGround, Work.on_bind, Site.on_ensureOpen, check]
          cases demand _ _ _ factor <;> rfl
      | defaultElevation z =>
          simp only [work, Site.setDefaultElevation, Work.on_bind, Site.on_ensureOpen, check]
          cases require (Scalar.isFinite z) _ <;> rfl
      | defaultWall absorption =>
          simp only [work, Site.setDefaultWall, Work.on_bind, Site.on_ensureOpen, check]
          cases demand _ _ _ absorption <;> rfl
      | building b =>
          obtain ⟨outline, height, absorption⟩ := b
          cases absorption with
          | none =>
              simp only [work, Site.addBuilding, Work.on_bind, Site.on_ensureOpen, check]
              cases height.check with
              | error fault => rfl
              | ok _ => simp [number?, Draft.apply]
          | some a =>
              simp only [work, Site.addBuilding, Work.on_bind, Site.on_ensureOpen, check]
              cases height.check with
              | error fault => rfl
              | ok _ =>
                  cases demand _ _ _ a with
                  | error fault => rfl
                  | ok _ => simp [number?, Draft.apply, bind, Except.bind]
      | area a =>
          simp only [work, Site.addArea, Work.on_bind, Site.on_ensureOpen, check]
          cases demand _ _ _ a.factor with
          | error fault => rfl
          | ok _ => simp [number?, Draft.apply]
      | topography line =>
          simp only [work, Site.addTopography, Work.on_bind, Site.on_ensureOpen, check]
          cases require (2 ≤ line.length) _ with
          | error fault => rfl
          | ok _ => cases require (line.all Point.isFinite) _ <;> rfl

end Edit

/-- An edit of a draft is checked and then applied. -/
theorem Draft.edit_eq (d : Draft α) (e : Edit α) :
    d.edit e = do
      e.check
      return d.apply e := by
  rw [Draft.edit, Edit.on_work]
  cases e.check <;> rfl

theorem Draft.edit_eq_ok_iff {d next : Draft α} {e : Edit α} :
    d.edit e = .ok next ↔ e.check = .ok () ∧ d.apply e = next := by
  simp [Draft.edit_eq, check_bind_eq_ok_iff, pure, Except.pure]

end RoadNoise
