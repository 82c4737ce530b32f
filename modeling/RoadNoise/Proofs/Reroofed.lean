/-
# RoadNoise.Proofs.Reroofed -- scenes that differ in their roofs only

Where a cut meets something is decided by outlines, ground areas and the relief; a roof
is only written down beside its walls.  So the cut of a scene with other roofs has the
same marks with those roofs (`Reroofed.cut_eq`), and the ground under every way is the
same (`Reroofed.footing_eq`), whatever the numbers.
-/
import RoadNoise.Proofs.Marks
import RoadNoise.Ray.Path

set_option autoImplicit false

namespace RoadNoise

variable {α : Type}

/-! ## Marks with other roofs -/

/-- The mark with another roof over its wall, if it is one. -/
def Mark.reroofed (roof : Nat → α) (m : Mark α) : Mark α :=
  { m with
    kind := match m.kind with
      | .ground => .ground
      | .wall b _ entering => .wall b (roof b) entering
      | .factor g => .factor g }

theorem Mark.map_reroofed {roof : Nat → α} {marks : List (Mark α)}
    (noWall : ∀ m ∈ marks, m.kind = .ground ∨ ∃ g, m.kind = .factor g) :
    marks.map (Mark.reroofed roof) = marks := by
  refine (List.map_congr_left fun m isMark => ?_).trans (List.map_id marks)
  rcases noWall m isMark with ground | ⟨g, factor⟩
  · obtain ⟨distance, position, kind⟩ := m
    obtain rfl : kind = .ground := ground
    rfl
  · obtain ⟨distance, position, kind⟩ := m
    obtain rfl : kind = .factor g := factor
    rfl

namespace Cut

/-- The cut with other roofs. -/
def reroofed (roof : Nat → α) (c : Cut α) : Cut α :=
  { c with marks := c.marks.map (Mark.reroofed roof) }

variable [Scalar α]

/-- What ground is left after a mark does not depend on roofs. -/
theorem spansFrom_reroofed (roof : Nat → α) (length g : α) (inside : Nat) (last : α)
    (marks : List (Mark α)) :
    spansFrom length g inside last (marks.map (Mark.reroofed roof))
      = spansFrom length g inside last marks := by
  induction marks generalizing g inside last with
  | nil => rfl
  | cons m rest ih =>
      obtain ⟨distance, position, kind⟩ := m
      cases kind with
      | ground => exact ih g inside last
      | factor g' =>
          simp only [List.map_cons, Mark.reroofed, spansFrom]
          rw [ih, ih]
      | wall b top entering =>
          cases entering
          all_goals
            simp only [List.map_cons, Mark.reroofed, spansFrom]
            rw [ih, ih]

theorem spans_reroofed (roof : Nat → α) (c : Cut α) : (c.reroofed roof).spans = c.spans :=
  spansFrom_reroofed roof c.length c.startFactor c.startInside 0 c.marks

end Cut

/-! ## Scenes with other roofs -/

namespace Scene

/-- The second scene has the ground of the first and buildings of the same outlines. -/
structure Reroofed (s s' : Scene α) : Prop where
  outlines : s'.buildings.map (·.outline) = s.buildings.map (·.outline)
  roofs : s'.roofs.size = s.roofs.size
  buildingGrid : s'.buildingGrid = s.buildingGrid
  areas : s'.areas = s.areas
  areaGrid : s'.areaGrid = s.areaGrid
  relief : s'.relief = s.relief
  defaults : s'.defaults = s.defaults

theorem Reroofed.getElem?_outline {s s' : Scene α} (same : s.Reroofed s') (b : Nat) :
    s'.buildings[b]?.map (·.outline) = s.buildings[b]?.map (·.outline) := by
  rw [← Array.getElem?_map, ← Array.getElem?_map, same.outlines]

variable [Scalar α]

/-- The roof of a building; where there is none, zero. -/
def roofOf (s : Scene α) (b : Nat) : α := s.roofs[b]?.getD 0

namespace Reroofed

variable {s s' : Scene α} (same : s.Reroofed s') (p q : Point α)

include same

theorem elevation_eq (x y : α) : s'.elevation x y = s.elevation x y := by
  rw [elevation, elevation, same.relief, same.defaults]

theorem groundFactor_eq (p : Point α) : s'.groundFactor p = s.groundFactor p := by
  rw [groundFactor, groundFactor, same.areas, same.areaGrid, same.defaults]

theorem groundMarks_eq : s'.groundMarks p q = s.groundMarks p q := by
  rw [groundMarks, groundMarks, same.relief, same.elevation_eq, same.elevation_eq]

theorem groundParts_eq : s'.groundParts p q = s.groundParts p q := by
  rw [groundParts, groundParts, same.areas, same.areaGrid]

theorem groundPoint_eq (t : α) : s'.groundPoint p q t = s.groundPoint p q t := by
  rw [groundPoint, groundPoint, same.elevation_eq]

theorem partFactor_eq (part : α × α) : s'.partFactor p q part = s.partFactor p q part := by
  rw [partFactor, partFactor, same.groundFactor_eq]

theorem factorMarks_eq (current : α) (parts : List (α × α)) :
    s'.factorMarks p q current parts = s.factorMarks p q current parts := by
  induction parts generalizing current with
  | nil => rfl
  | cons part rest ih =>
      rw [factorMarks, factorMarks, same.partFactor_eq, same.groundPoint_eq, ih, ih]

theorem getElem?_roofs {b : Nat} {roof : α} (isRoof : s.roofs[b]? = some roof) :
    s'.roofs[b]? = some (s'.roofOf b) := by
  obtain ⟨present, -⟩ := Array.getElem?_eq_some_iff.1 isRoof
  rw [roofOf, Array.getElem?_eq_getElem (same.roofs ▸ present), Option.getD_some]

/-- A building has the same parts inside, below its own roof. -/
theorem partsInside_eq (b : Nat) : s'.partsInside p q b
    = (s.partsInside p q b).map fun (b, _, part) => (b, s'.roofOf b, part) := by
  have outline := same.getElem?_outline b
  unfold partsInside
  by_cases present : b < s.roofs.size
  · have roof : s.roofs[b]? = some s.roofs[b] := Array.getElem?_eq_getElem present
    rw [same.getElem?_roofs roof, roof]
    cases before : s.buildings[b]? with
    | none =>
        have after : s'.buildings[b]? = none := by simpa [before] using outline
        rw [after]
        rfl
    | some building =>
        obtain ⟨other, after, drawn⟩ : ∃ other, s'.buildings[b]? = some other ∧
            other.outline = building.outline := by simpa [before] using outline
        simp [after, drawn]
  · have roof : s.roofs[b]? = none := Array.getElem?_eq_none (not_lt.1 present)
    have roof' : s'.roofs[b]? = none :=
      Array.getElem?_eq_none (not_lt.1 (same.roofs.symm ▸ present))
    cases s.buildings[b]? <;> cases s'.buildings[b]? <;> simp [roof, roof']

theorem wallMarks_eq (b : Nat) (top : α) (part : α × α) :
    s'.wallMarks p q (b, s'.roofOf b, part)
      = (s.wallMarks p q (b, top, part)).map (Mark.reroofed s'.roofOf) := by
  simp only [wallMarks, List.map_append, apply_ite (List.map _), List.map_nil, List.map_cons,
    Mark.reroofed, same.groundPoint_eq]

/-- The parts inside all buildings, each below its own roof. -/
theorem insideBuildings_eq : s'.insideBuildings p q
    = (s.insideBuildings p q).map fun (b, _, part) => (b, s'.roofOf b, part) := by
  have parts : s'.partsInside p q = fun b =>
      (s.partsInside p q b).map fun (b, _, part) => (b, s'.roofOf b, part) :=
    funext (same.partsInside_eq p q)
  show (s'.buildingGrid.along p q).flatMap (s'.partsInside p q)
    = ((s.buildingGrid.along p q).flatMap (s.partsInside p q)).map _
  rw [same.buildingGrid, parts, List.map_flatMap]

/-- The cut is the same but for the roofs. -/
theorem cut_eq : s'.cut p q = (s.cut p q).reroofed s'.roofOf := by
  have ground : (s.groundMarks p q).map (Mark.reroofed s'.roofOf) = s.groundMarks p q :=
    Mark.map_reroofed fun m isMark => .inl (isGround_of_mem_groundMarks isMark)
  have factors : ∀ current parts, (s.factorMarks p q current parts).map (Mark.reroofed s'.roofOf)
      = s.factorMarks p q current parts := fun current parts =>
    Mark.map_reroofed fun m isMark => .inr <|
      (exists_of_mem_factorMarks isMark).elim fun _ kind => ⟨_, kind⟩
  have walls : ∀ found, s'.wallMarks p q (found.1, s'.roofOf found.1, found.2.2)
      = (s.wallMarks p q found).map (Mark.reroofed s'.roofOf) := fun found =>
    same.wallMarks_eq p q found.1 found.2.1 found.2.2
  have sorted : ∀ marks : List (Mark α),
      Sequence.sortOn (fun a b => Scalar.order a.distance b.distance)
          (marks.map (Mark.reroofed s'.roofOf))
        = (Sequence.sortOn (fun a b => Scalar.order a.distance b.distance) marks).map
          (Mark.reroofed s'.roofOf) := Sequence.sortOn_map fun _ _ => rfl
  unfold cut Cut.reroofed
  simp only [same.insideBuildings_eq, same.groundMarks_eq, same.groundParts_eq,
    same.factorMarks_eq, same.groundFactor_eq, same.partFactor_eq, List.flatMap_map, walls,
    List.countP_map, ← sorted, List.map_append, List.map_flatMap, ground, factors]
  rfl

/-- The ground under a way is the same. -/
theorem footing_eq (way : List (Point α)) (sourceFactor : Option α) :
    s'.footing way sourceFactor = s.footing way sourceFactor := by
  have height : s'.heightAbove = s.heightAbove := by
    funext p
    rw [heightAbove, heightAbove, same.elevation_eq]
  have spans : ∀ p q, (s'.cut p q).spans = (s.cut p q).spans := by
    intro p q
    rw [same.cut_eq, Cut.spans_reroofed]
  simp only [footing, height, spans]

end Reroofed

end Scene

end RoadNoise
