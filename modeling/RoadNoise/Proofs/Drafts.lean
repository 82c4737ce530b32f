/-
# RoadNoise.Proofs.Drafts -- what edits can make

A scene is a finished draft, and a draft comes out of edits that were accepted, with
outlines that `Polygon.ofRings` accepted before.  Accepted edits are checked, so
such a draft carries what its checks ask for (`Draft.Made.sound`): outlines are
drawn, and every absorption lies between zero and one.
-/
import RoadNoise.Proofs.Edits
import RoadNoise.Proofs.Outline

set_option autoImplicit false

namespace RoadNoise

/-- The outline that an edit brings, if any, was drawn. -/
def Edit.Drawn : Edit ℝ → Prop
  | .building b => b.outline.Drawn
  | .area a => a.outline.Drawn
  | _ => True

namespace Draft

/-- The drafts that accepted edits make out of nothing. -/
inductive Made : Draft ℝ → Prop
  | empty : Made .empty
  | edit {d next : Draft ℝ} {e : Edit ℝ} (made : Made d) (drawn : e.Drawn)
      (accepted : d.edit e = .ok next) : Made next

/-- Points in the midst of ground at another elevation. -/
theorem Made.ofPoints {line : List (Point ℝ)} (several : 2 ≤ line.length) (elevation : ℝ) :
    Made { Draft.empty with topography := line, defaults := ⟨0, elevation, 0.1⟩ } := by
  have raised : Made { Draft.empty with defaults := ⟨0, elevation, 0.1⟩ } :=
    .edit (e := .defaultElevation elevation) .empty trivial (edit_eq_ok_iff.2 ⟨rfl, rfl⟩)
  refine .edit (e := .topography line) raised trivial (edit_eq_ok_iff.2 ⟨?_, rfl⟩)
  exact check_bind_eq_ok_iff.2 ⟨by simp [require, several], by simp [require, Point.isFinite]⟩

/-- What the checks of edits ask of a draft. -/
structure Sound (d : Draft ℝ) : Prop where
  buildingDrawn : ∀ b ∈ d.buildings, b.outline.Drawn
  areaDrawn : ∀ a ∈ d.areas, a.outline.Drawn
  absorption : ∀ b ∈ d.buildings, ∀ x, b.absorption = some x → 0 ≤ x ∧ x ≤ 1
  factor : ∀ a ∈ d.areas, 0 ≤ a.factor ∧ a.factor ≤ 1
  ground : 0 ≤ d.defaults.ground ∧ d.defaults.ground ≤ 1
  wall : 0 ≤ d.defaults.wall ∧ d.defaults.wall ≤ 1

theorem Sound.empty : Sound .empty where
  buildingDrawn := by simp [Draft.empty]
  areaDrawn := by simp [Draft.empty]
  absorption := by simp [Draft.empty]
  factor := by simp [Draft.empty]
  ground := by simp [Draft.empty]
  wall := by norm_num [Draft.empty]

theorem unitInterval_iff {raise : Defect ℝ → Fault ℝ} {what : String} {x : ℝ} {u : Unit} :
    demand raise what .unitInterval x = .ok u ↔ 0 ≤ x ∧ x ≤ 1 := by
  rw [demand_eq_ok_iff]
  simp [Rule.admits]

/-- An accepted edit keeps a draft sound. -/
theorem Sound.edit {d next : Draft ℝ} {e : Edit ℝ} (sound : d.Sound) (drawn : e.Drawn)
    (accepted : d.edit e = .ok next) : next.Sound := by
  obtain ⟨checked, rfl⟩ := edit_eq_ok_iff.1 accepted
  cases e with
  | defaultGround factor => exact { sound with ground := unitInterval_iff.1 checked }
  | defaultElevation z => exact { sound with }
  | defaultWall absorption => exact { sound with wall := unitInterval_iff.1 checked }
  | topography line => exact { sound with }
  | building b =>
      obtain ⟨_, -, checked⟩ := bind_eq_ok_iff.1 checked
      refine { sound with buildingDrawn := ?_, absorption := ?_ }
      · intro c member
        rcases Array.mem_push.1 member with old | rfl
        · exact sound.buildingDrawn c old
        · exact drawn
      · intro c member x given
        rcases Array.mem_push.1 member with old | rfl
        · exact sound.absorption c old x given
        · rw [given] at checked
          exact unitInterval_iff.1 checked
  | area a =>
      refine { sound with areaDrawn := ?_, factor := ?_ }
      · intro c member
        rcases Array.mem_push.1 member with old | rfl
        · exact sound.areaDrawn c old
        · exact drawn
      · intro c member
        rcases Array.mem_push.1 member with old | rfl
        · exact sound.factor c old
        · exact unitInterval_iff.1 checked

theorem Made.sound {d : Draft ℝ} (made : d.Made) : d.Sound := by
  induction made with
  | empty => exact .empty
  | edit _ drawn accepted ih => exact ih.edit drawn accepted

/-- Every wall absorbs as its building does, or by default. -/
theorem Sound.wall_absorption {d : Draft ℝ} (sound : d.Sound) {wall : Wall ℝ}
    (isWall : wall ∈ d.finish.walls) : 0 ≤ wall.absorption ∧ wall.absorption ≤ 1 := by
  have isWall : wall ∈ d.buildings.toList.zipIdx.flatMap fun (b, i) => b.walls d.defaults i := by
    simpa [finish] using isWall
  obtain ⟨⟨b, i⟩, entry, isWall⟩ := List.mem_flatMap.1 isWall
  obtain ⟨⟨p0, p1⟩, -, rfl⟩ := List.mem_map.1 isWall
  have member : b ∈ d.buildings := Array.mem_toList_iff.1 (List.fst_mem_of_mem_zipIdx entry)
  dsimp only
  cases own : b.absorption with
  | none => exact sound.wall
  | some x => exact sound.absorption b member x own

end Draft

end RoadNoise
