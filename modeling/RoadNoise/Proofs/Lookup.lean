/-
# RoadNoise.Proofs.Lookup -- looking up is the same as looking through

For the ground at a place and for the walls near a place the grids answer as if every
item was asked.  Along a segment they do so for every building that holds a place of
the segment.  A building can also have an inside part beyond an end of the segment,
within the tolerance: an edge that continues the segment is reported where it begins,
and nothing holds that position to the segment (`Crossing.ofParallel`).  Such a
building is only found if it shares a cell with the segment, and `Scene.Missed` is
exactly what the answers differ by.
-/
import RoadNoise.Proofs.Distance
import RoadNoise.Proofs.Drafts
import RoadNoise.Proofs.Grid
import RoadNoise.Proofs.Inside
import RoadNoise.Proofs.Marks

set_option autoImplicit false

namespace RoadNoise

theorem Box.inflate_covers {p q : Point ℝ} {radius : ℝ} (near : p.planarDistance q ≤ radius) :
    ((Box.ofSegment p p).inflate radius).Covers q := by
  have along := abs_le.1 ((p.abs_x_le_planarDistance q).trans near)
  have across := abs_le.1 ((p.abs_y_le_planarDistance q).trans near)
  simp only [Box.Covers, Box.inflate, Box.ofSegment, min_self, max_self]
  exact ⟨⟨by linarith, by linarith⟩, by linarith, by linarith⟩

namespace Scene

/-- The building holds a place of the segment. -/
def Meets (s : Scene ℝ) (p q : Point ℝ) (b : Nat) : Prop :=
  ∃ building, s.buildings[b]? = some building ∧
    ∃ t, 0 ≤ t ∧ t ≤ 1 ∧ building.outline.contains (Point.between p q t) = true

/-- The building holds no place of the segment and shares no cell with it. -/
def Missed (s : Scene ℝ) (p q : Point ℝ) (b : Nat) : Prop :=
  ¬s.Meets p q b ∧ b ∉ s.buildingGrid.along p q

theorem mem_partsInside {s : Scene ℝ} {p q : Point ℝ} {b : Nat} {found : Nat × ℝ × (ℝ × ℝ)} :
    found ∈ s.partsInside p q b ↔ ∃ building roof, s.buildings[b]? = some building ∧
      s.roofs[b]? = some roof ∧
        ∃ part ∈ building.outline.insideParts p q, found = (b, roof, part) := by
  unfold partsInside
  split
  · rename_i building roof isBuilding isRoof
    simp [isBuilding, isRoof, eq_comm]
  · rename_i none
    simp only [List.not_mem_nil, false_iff]
    rintro ⟨building, roof, isBuilding, isRoof, -⟩
    exact none building roof isBuilding isRoof

theorem eps_le_of_mem_insideBuildings {s : Scene ℝ} {p q : Point ℝ} {found : Nat × ℝ × (ℝ × ℝ)}
    (inside : found ∈ s.insideBuildings p q) :
    found.2.2.1 + Scalar.eps ≤ found.2.2.2 := by
  obtain ⟨b, -, listed⟩ := List.mem_flatMap.1 inside
  obtain ⟨building, roof, -, -, part, isPart, rfl⟩ := mem_partsInside.1 listed
  exact Polygon.eps_le_of_mem_insideParts isPart

/-- The parts of a building that holds no place of the segment lie at its ends. -/
theorem beyond_of_not_meets {s : Scene ℝ} {p q : Point ℝ} {b : Nat} (apart : ¬s.Meets p q b)
    {found : Nat × ℝ × (ℝ × ℝ)} (listed : found ∈ s.partsInside p q b) :
    found.2.2.2 ≤ Scalar.eps ∨ 1 - Scalar.eps ≤ found.2.2.1 := by
  obtain ⟨building, roof, isBuilding, -, part, inside, rfl⟩ := mem_partsInside.1 listed
  refine Polygon.beyond_of_mem_insideParts inside fun t start stop => ?_
  rw [← Bool.not_eq_true]
  exact fun holds => apart ⟨building, isBuilding, t, start, stop, holds⟩

theorem exists_of_blocks {s : Scene ℝ} {p q : Point ℝ} {b : Nat}
    (blocked : s.blocks p q b = true) :
    ∃ building roof, s.buildings[b]? = some building ∧ s.roofs[b]? = some roof ∧
      ∃ part ∈ building.outline.insideParts p q,
        min (p.z + part.1 * (q.z - p.z)) (p.z + part.2 * (q.z - p.z)) < roof - Scalar.eps := by
  unfold blocks at blocked
  split at blocked
  · rename_i building roof isBuilding isRoof
    obtain ⟨part, inside, below⟩ := List.any_eq_true.1 blocked
    exact ⟨building, roof, isBuilding, isRoof, part, inside, of_decide_eq_true below⟩
  · simp at blocked

/-- A part at an end of the segment has a wall there. -/
theorem exists_wallMark (s : Scene ℝ) (p q : Point ℝ) (b : Nat) (roof : ℝ) {part : ℝ × ℝ}
    (beyond : part.2 ≤ Scalar.eps ∨ 1 - Scalar.eps ≤ part.1) :
    ∃ m ∈ s.wallMarks p q (b, roof, part), ∃ entering, m.kind = .wall b roof entering := by
  have small : (Scalar.eps : ℝ) < 1 - Scalar.eps := by
    rw [Scalar.eps_eq]
    norm_num
  rcases beyond with before | after
  · have leaves : part.2 < 1 - Scalar.eps := before.trans_lt small
    exact ⟨_, List.mem_append_right _ (by rw [if_pos leaves]; exact List.mem_singleton_self _),
      false, rfl⟩
  · have enters : ¬part.1 ≤ Scalar.eps := not_le.2 (small.trans_le after)
    exact ⟨_, List.mem_append_left _ (by rw [if_neg enters]; exact List.mem_singleton_self _),
      true, rfl⟩

end Scene

/-! ## Finished drafts -/

namespace Draft

variable {d : Draft ℝ}

/-- The vertices of all holes lie in the rectangles of their outlines. -/
def HolesInBox (d : Draft ℝ) : Prop :=
  (∀ b ∈ d.buildings, b.outline.HolesInBox) ∧ ∀ a ∈ d.areas, a.outline.HolesInBox

theorem finish_groundFactor (made : d.Made) (holes : d.HolesInBox) (p : Point ℝ) :
    d.finish.groundFactor p = d.finish.plainGroundFactor p := by
  have ascending : (d.finish.areaGrid.atPoint p).Pairwise (· < ·) := Grid.pairwise_items _
  rw [Scene.groundFactor_eq, Scene.plainGroundFactor, findSome?_reverse_eq_range ascending]
  intro i found
  have entry : ∃ a, d.areas[i]? = some a ∧ a.outline.contains p = true := by
    unfold Scene.factorIn at found
    split at found
    · rename_i a entry
      exact ⟨a, entry, by simpa using found⟩
    · simp at found
  obtain ⟨a, entry, holds⟩ := entry
  refine iff_of_true (Grid.mem_atPoint.2 ⟨a.outline.box, by simp [entry], ?_⟩)
    (Array.getElem?_eq_some_iff.1 entry).1
  have member : a ∈ d.areas := Array.mem_of_getElem? entry
  have framed := (made.sound.areaDrawn a member).framed (holes.2 a member)
  exact Grid.mem_cells_of_covers (Grid.stepFor_pos _) (Polygon.covers_of_contains framed holds)

theorem finish_wallsNear (d : Draft ℝ) (p : Point ℝ) (radius : ℝ) :
    d.finish.wallsNear p radius = d.finish.plainWallsNear p radius := by
  rw [Scene.wallsNear_eq, Scene.plainWallsNear]
  refine filter_eq_filter_range (Grid.pairwise_inBox _ _) fun w near => ?_
  have entry : ∃ wall, d.finish.walls[w]? = some wall ∧
      p.distanceToSegment wall.p0 wall.p1 ≤ radius := by
    unfold Scene.wallWithin at near
    split at near
    · rename_i wall entry
      exact ⟨wall, entry, by simpa using near⟩
    · simp at near
  obtain ⟨wall, entry, near⟩ := entry
  refine iff_of_true (Grid.mem_inBox.2 ?_) (Array.getElem?_eq_some_iff.1 entry).1
  -- the nearest place of the wall lies in a cell that both rectangles reach into
  obtain ⟨t, start, stop, nearest⟩ := p.exists_distanceToSegment_eq wall.p0 wall.p1
  rw [nearest] at near
  refine ⟨Box.ofSegment wall.p0 wall.p1, ?_, _,
    Grid.mem_cells_of_covers (Grid.stepFor_pos _) (Box.ofSegment_covers_between start stop),
    Grid.mem_cells_of_covers (Grid.stepFor_pos _) (Box.inflate_covers near)⟩
  have entry : (d.buildings.toList.zipIdx.flatMap fun (b, i) => b.walls d.defaults i)[w]?
      = some wall := by simpa [Draft.finish] using entry
  simp only [List.getElem?_map, entry, Option.map_some]

/-- A building that holds a place of a segment is found along it. -/
theorem mem_along_of_meets (made : d.Made) (holes : d.HolesInBox) {p q : Point ℝ} {b : Nat}
    (meets : d.finish.Meets p q b) : b ∈ d.finish.buildingGrid.along p q := by
  obtain ⟨building, entry, t, start, stop, holds⟩ := meets
  have member : building ∈ d.buildings := Array.mem_of_getElem? entry
  have framed := (made.sound.buildingDrawn building member).framed (holes.1 building member)
  have boxed : (d.buildings.toList.map (·.outline.box))[b]? = some building.outline.box := by
    have entry : d.buildings[b]? = some building := entry
    simp [entry]
  exact Grid.mem_along_of_covers (Grid.stepFor_pos _) boxed start stop
    (Polygon.covers_of_contains framed holds)

theorem lt_size_of_mem_along {p q : Point ℝ} {b : Nat}
    (found : b ∈ d.finish.buildingGrid.along p q) : b < d.finish.buildings.size := by
  obtain ⟨box, entry⟩ := Grid.exists_box_of_mem_along found
  have inRange := (List.getElem?_eq_some_iff.1 entry).1
  simp only [List.length_map, Array.length_toList] at inRange
  exact inRange

/-- Where nothing that matters is missed, the grid is as good as all buildings. -/
theorem mem_along_iff (made : d.Made) (holes : d.HolesInBox) {p q : Point ℝ} {b : Nat}
    (found : ¬d.finish.Missed p q b) :
    b ∈ d.finish.buildingGrid.along p q ↔ b < d.finish.buildings.size := by
  refine iff_of_true ?_ ?_ <;> by_cases meets : d.finish.Meets p q b
  · exact mem_along_of_meets made holes meets
  · exact not_not.1 fun absent => found ⟨meets, absent⟩
  · exact lt_size_of_mem_along (mem_along_of_meets made holes meets)
  · exact lt_size_of_mem_along (not_not.1 fun absent => found ⟨meets, absent⟩)

theorem finish_obstructing_iff (made : d.Made) (holes : d.HolesInBox) (p q : Point ℝ) :
    d.finish.obstructing p q = d.finish.plainObstructing p q ↔
      ∀ b, d.finish.blocks p q b = true → ¬d.finish.Missed p q b := by
  rw [Scene.obstructing_eq, Scene.plainObstructing]
  constructor
  · intro same b blocked ⟨_, absent⟩
    obtain ⟨building, roof, isBuilding, -⟩ := Scene.exists_of_blocks blocked
    have listed : b ∈ (List.range d.finish.buildings.size).filter (d.finish.blocks p q) :=
      List.mem_filter.2
        ⟨List.mem_range.2 (Array.getElem?_eq_some_iff.1 isBuilding).1, blocked⟩
    rw [← same] at listed
    exact absent (List.mem_filter.1 listed).1
  · intro found
    exact filter_eq_filter_range (Grid.pairwise_along _ p q) fun b blocked =>
      mem_along_iff made holes (found b blocked)

theorem finish_cut (made : d.Made) (holes : d.HolesInBox) {p q : Point ℝ}
    (found : ∀ b, d.finish.partsInside p q b ≠ [] → ¬d.finish.Missed p q b) :
    d.finish.cut p q = d.finish.plainCut p q := by
  rw [Scene.cut_eq, Scene.plainCut, flatMap_eq_flatMap_range (Grid.pairwise_along _ p q)]
  exact fun b parts => mem_along_iff made holes (found b parts)

theorem finish_walls_iff (made : d.Made) (holes : d.HolesInBox) (p q : Point ℝ) :
    (d.finish.cut p q).walls = (d.finish.plainCut p q).walls ↔
      ∀ b, d.finish.partsInside p q b ≠ [] → ¬d.finish.Missed p q b := by
  constructor
  · intro same b parts ⟨apart, absent⟩
    obtain ⟨found, inside⟩ := List.exists_mem_of_ne_nil _ parts
    have beyond := Scene.beyond_of_not_meets apart inside
    obtain ⟨building, roof, isBuilding, -, part, -, rfl⟩ := Scene.mem_partsInside.1 inside
    obtain ⟨m, isMark, entering, kind⟩ := d.finish.exists_wallMark p q b roof beyond
    have listed : m ∈ (d.finish.plainCut p q).walls := by
      refine Scene.mem_walls_cutThrough.2 ⟨_, List.mem_flatMap.2 ⟨b, ?_, inside⟩, isMark⟩
      exact List.mem_range.2 (Array.getElem?_eq_some_iff.1 isBuilding).1
    rw [← same, Scene.cut_eq] at listed
    obtain ⟨other, visited, isMark⟩ := Scene.mem_walls_cutThrough.1 listed
    obtain ⟨k, along, inside⟩ := List.mem_flatMap.1 visited
    obtain ⟨_, _, -, -, _, -, rfl⟩ := Scene.mem_partsInside.1 inside
    obtain ⟨_, sameKind⟩ := Scene.exists_of_mem_wallMarks isMark
    rw [kind, MarkKind.wall.injEq] at sameKind
    exact absent (sameKind.1 ▸ along)
  · intro found
    rw [finish_cut made holes found]

/-- What the grids answer, against asking every item in turn.  At a place both are the
same.  Along a segment they are the same unless a building is missed, and a building
that could be has its inside parts within the tolerance of an end. -/
theorem finish_lookup (made : d.Made) (holes : d.HolesInBox) :
    (∀ p, d.finish.groundFactor p = d.finish.plainGroundFactor p) ∧
    (∀ p radius, d.finish.wallsNear p radius = d.finish.plainWallsNear p radius) ∧
    (∀ p q, d.finish.obstructing p q = d.finish.plainObstructing p q ↔
      ∀ b, d.finish.blocks p q b = true → ¬d.finish.Missed p q b) ∧
    (∀ p q, (d.finish.cut p q).walls = (d.finish.plainCut p q).walls ↔
      ∀ b, d.finish.partsInside p q b ≠ [] → ¬d.finish.Missed p q b) ∧
    ∀ p q b, d.finish.Missed p q b → ∀ found ∈ d.finish.partsInside p q b,
      found.2.2.2 ≤ Scalar.eps ∨ 1 - Scalar.eps ≤ found.2.2.1 :=
  ⟨finish_groundFactor made holes, d.finish_wallsNear, finish_obstructing_iff made holes,
    finish_walls_iff made holes, fun _ _ _ missed _ => Scene.beyond_of_not_meets missed.1⟩

end Draft

/-! ## A scene with one block -/

/-- A block that lies across the way to the north. -/
noncomputable def blockRing : List (Point ℝ) :=
  [⟨-10.0, 10.0, 0⟩, ⟨10.0, 10.0, 0⟩, ⟨10.0, 20.0, 0⟩, ⟨-10.0, 20.0, 0⟩]

noncomputable def blockOutline : Polygon ℝ :=
  ⟨blockRing, [], Box.around ⟨-10.0, 10.0, 0⟩ blockRing.tail⟩

theorem block_drawn : blockOutline.Drawn := by
  refine Polygon.drawn_of_pairwise (by simp) ?_ ?_
  · simp [Point.samePlanar, Scalar.eps_eq]
    norm_num [abs_le]
  · simp [Ring.area, Sequence.cyclic, Scalar.eps_eq]
    norm_num

theorem block_framed : blockOutline.Framed :=
  block_drawn.framed (by simp [Polygon.HolesInBox, blockOutline])

theorem block_crossings (z z' : ℝ) : blockOutline.edges.flatMap
    (fun e => (Crossing.of ⟨0, 0, z⟩ ⟨0, 30, z'⟩ e.1 e.2).positions) = [1 / 3, 2 / 3] := by
  simp [Polygon.edges, Polygon.rings, blockOutline, blockRing, Sequence.cyclic, Crossing.of,
    Crossing.ofParallel, Displacement.cross, Displacement.dot, Scalar.eps_eq, Scalar.clamp]
  norm_num [Crossing.positions]

theorem block_boundaryCrossings (z z' : ℝ) :
    blockOutline.boundaryCrossings ⟨0, 0, z⟩ ⟨0, 30, z'⟩ = [1 / 3, 2 / 3] := by
  have overlaps : blockOutline.box.overlaps (Box.ofSegment ⟨0, 0, z⟩ ⟨0, 30, z'⟩) = true := by
    simp [blockOutline, blockRing, Box.around, Box.expand, Box.overlaps, Box.ofSegment,
      Scalar.eps_eq]
    norm_num
  have sorted : Sequence.sortOn Scalar.order [(1 / 3 : ℝ), 2 / 3] = [1 / 3, 2 / 3] :=
    Sequence.sortOn_order_eq (.refl _) (by norm_num)
  rw [Polygon.boundaryCrossings, if_pos overlaps, block_crossings]
  simp only [sorted]
  simp [Sequence.thin, Sequence.thinAfter, Scalar.near, Scalar.eps_eq]
  norm_num [abs_lt]

/-- A place of the way north lies in the block if it is between the two long sides. -/
theorem block_contains (y z : ℝ) :
    blockOutline.contains ⟨0, y, z⟩ = true ↔ 10 ≤ y ∧ y < 20 := by
  rw [Polygon.contains_iff_odd block_framed]
  simp [Polygon.edges, Polygon.rings, blockOutline, blockRing, Sequence.cyclic]
  norm_num [List.countP_cons, Polygon.meetsRay_iff]
  by_cases low : y < 10
  · simp [low, low.trans (by norm_num : (10 : ℝ) < 20)]
  · by_cases high : y < 20 <;> simp [low, high, not_lt.1 low]

theorem le_of_block_contains {p : Point ℝ} (holds : blockOutline.contains p = true) : 10 ≤ p.y := by
  have low := (Polygon.covers_of_contains block_framed holds).2.1
  have ymin : blockOutline.box.ymin = 10 := by
    norm_num [blockOutline, blockRing, Box.around, Box.expand]
  exact ymin ▸ low

theorem block_insideParts (z z' : ℝ) :
    blockOutline.insideParts ⟨0, 0, z⟩ ⟨0, 30, z'⟩ = [(1 / 3, 2 / 3)] := by
  have tidied : tidyPositions ((0 : ℝ) :: [1 / 3, 2 / 3] ++ [1]) = [0, 1 / 3, 2 / 3, 1] := by
    refine tidyPositions_eq (.refl _) ?_
    simp [Scalar.eps_eq]
    norm_num
  have holds : ∀ t, blockOutline.contains (Point.between ⟨0, 0, z⟩ ⟨0, 30, z'⟩ t)
      = decide (10 ≤ 30 * t ∧ 30 * t < 20) := by
    intro t
    rw [Bool.eq_iff_iff, decide_eq_true_eq, ← block_contains (30 * t) (z + (z' - z) * t)]
    simp [Point.between]
  have kept : (Sequence.adjacent [(0 : ℝ), 1 / 3, 2 / 3, 1]).filter (fun e =>
      blockOutline.contains (Point.between ⟨0, 0, z⟩ ⟨0, 30, z'⟩ (0.5 * (e.1 + e.2))))
        = [(1 / 3, 2 / 3)] := by
    simp only [holds, Sequence.adjacent_cons_cons]
    norm_num [List.filter_cons, Sequence.adjacent]
  simp only [Polygon.insideParts, block_boundaryCrossings, tidied]
  exact congrArg joinParts kept

/-- The block, ten metres high. -/
noncomputable def block : Building ℝ := ⟨blockOutline, .absolute 10.0, none⟩

@[simp] theorem block_outline : block.outline = blockOutline := rfl

noncomputable def blockDraft : Draft ℝ := { Draft.empty with buildings := #[block] }

theorem blockDraft_made : blockDraft.Made :=
  .edit (e := .building block) .empty block_drawn rfl

theorem blockDraft_holesInBox : blockDraft.HolesInBox := by
  constructor
  · simp [blockDraft, blockOutline, Polygon.HolesInBox]
  · simp [blockDraft, Draft.empty]

/-! ## A building that is missed -/

/-- A ring with an edge along the line through `(11, 5)` and `(10, 5)` that begins just
beyond the second point, next to a corner that reaches just short of it. -/
noncomputable def spurRing : List (Point ℝ) :=
  [⟨0.9999999999, 95.000000006, 0⟩, ⟨9.9999999999, 5.000000006, 0⟩, ⟨9.9999999999, 0, 0⟩,
    ⟨9.9999999991, 5.0, 0⟩, ⟨0, 5.0, 0⟩]

noncomputable def spur : Building ℝ where
  outline := ⟨spurRing, [], Box.around ⟨0.9999999999, 95.000000006, 0⟩ spurRing.tail⟩
  height := .absolute 10.0
  absorption := none

noncomputable def spurDraft : Draft ℝ := { Draft.empty with buildings := #[spur] }

theorem spur_drawn : spur.outline.Drawn := by
  refine Polygon.drawn_of_pairwise (by simp) ?_ ?_
  · simp [Point.samePlanar, Scalar.eps_eq]
    norm_num [abs_le]
  · simp [Ring.area, Sequence.cyclic, Scalar.eps_eq]
    norm_num

theorem spurDraft_made : spurDraft.Made := by
  refine .edit (e := .building spur) .empty spur_drawn ?_
  rfl

theorem spur_positions :
    spur.outline.edges.flatMap (fun e => (Crossing.of ⟨11, 5, 1⟩ ⟨10, 5, 1⟩ e.1 e.2).positions)
      = [0.9999999995, 1, 1, 1.0000000009, 1] := by
  simp [Polygon.edges, Polygon.rings, spur, spurRing, Sequence.cyclic, Crossing.of,
    Crossing.ofParallel, Displacement.cross, Displacement.dot, Scalar.eps_eq, Scalar.clamp]
  norm_num [Crossing.positions]

theorem spur_boundaryCrossings :
    spur.outline.boundaryCrossings ⟨11, 5, 1⟩ ⟨10, 5, 1⟩ = [0.9999999995, 1.0000000009] := by
  have overlaps : spur.outline.box.overlaps (Box.ofSegment ⟨11, 5, 1⟩ ⟨10, 5, 1⟩) = true := by
    simp [spur, spurRing, Box.around, Box.expand, Box.overlaps, Box.ofSegment, Scalar.eps_eq]
    norm_num
  have sorted : Sequence.sortOn Scalar.order [(0.9999999995 : ℝ), 1, 1, 1.0000000009, 1]
      = [0.9999999995, 1, 1, 1, 1.0000000009] := by
    refine Sequence.sortOn_order_eq ?_ (by norm_num)
    exact .cons _ (.cons _ (.cons _ (.swap _ _ _)))
  rw [Polygon.boundaryCrossings, if_pos overlaps, spur_positions]
  simp only [sorted]
  simp [Sequence.thin, Sequence.thinAfter, Scalar.near, Scalar.eps_eq]
  norm_num [abs_lt]

theorem spur_insideParts :
    spur.outline.insideParts ⟨11, 5, 1⟩ ⟨10, 5, 1⟩ = [(0.9999999995, 1.0000000009)] := by
  have sorted : Sequence.sortOn Scalar.order [(0 : ℝ), 0.9999999995, 1.0000000009, 1]
      = [0, 0.9999999995, 1, 1.0000000009] := by
    refine Sequence.sortOn_order_eq ?_ (by norm_num)
    exact .cons _ (.cons _ (.swap _ _ _))
  have tidied : tidyPositions ((0 : ℝ) :: [0.9999999995, 1.0000000009] ++ [1])
      = [0, 0.9999999995, 1.0000000009] := by
    rw [tidyPositions, List.cons_append, List.cons_append, List.cons_append, List.nil_append,
      sorted]
    simp [Sequence.thin, Sequence.thinAfter, Scalar.near, Scalar.eps_eq]
    norm_num [abs_lt]
  have outside : spur.outline.contains
      (Point.between ⟨11, 5, 1⟩ ⟨10, 5, 1⟩ (0.5 * (0 + 0.9999999995))) = false := by
    simp [Polygon.contains, Box.holds, spur, spurRing, Box.around, Box.expand, Point.between,
      Scalar.eps_eq]
    norm_num
  have inside : spur.outline.contains
      (Point.between ⟨11, 5, 1⟩ ⟨10, 5, 1⟩ (0.5 * (0.9999999995 + 1.0000000009))) = true := by
    simp [Polygon.contains, Box.holds, spur, spurRing, Box.around, Box.expand, Point.between,
      Scalar.eps_eq, Polygon.edges, Polygon.rings, Sequence.cyclic]
    norm_num [List.countP_cons, Polygon.meetsRay_iff]
  have kept : (Sequence.adjacent [(0 : ℝ), 0.9999999995, 1.0000000009]).filter (fun e =>
      spur.outline.contains (Point.between ⟨11, 5, 1⟩ ⟨10, 5, 1⟩ (0.5 * (e.1 + e.2))))
        = [(0.9999999995, 1.0000000009)] := by
    simp only [Sequence.adjacent_cons_cons, List.filter_cons, outside, inside]
    rfl
  simp only [Polygon.insideParts, spur_boundaryCrossings, tidied]
  exact congrArg joinParts kept

theorem spur_blocks : spurDraft.finish.blocks ⟨11, 5, 1⟩ ⟨10, 5, 1⟩ 0 = true := by
  have low : min ((1 : ℝ) + 0.9999999995 * (1 - 1)) (1 + 1.0000000009 * (1 - 1))
      < 10.0 - Scalar.eps := by
    norm_num [Scalar.eps_eq]
  simp only [Scene.blocks, Draft.finish, spurDraft, List.getElem?_toArray, List.map_toArray,
    List.getElem?_cons_zero, List.map_cons, spur_insideParts]
  simp only [List.any_cons, Bool.or_eq_true, decide_eq_true_eq]
  exact .inl low

/-- The building lies in cells west of the segment's. -/
theorem spur_along : spurDraft.finish.buildingGrid.along ⟨11, 5, 1⟩ ⟨10, 5, 1⟩ = [] := by
  have box : spur.outline.box = ⟨0, 0, 9.9999999999, 95.000000006⟩ := by
    simp only [spur, spurRing, Box.around, List.tail_cons, List.foldl_cons, List.foldl_nil,
      Box.expand, Box.mk.injEq]
    norm_num
  have step : Grid.stepFor [spur.outline.box] = 10 := by
    rw [box]
    simp only [Grid.stepFor, List.foldl_nil]
    norm_num
  refine List.eq_nil_iff_forall_not_mem.2 fun k found => ?_
  obtain ⟨i, j, ⟨column, -⟩, -, item⟩ := Grid.mem_along.1 found
  obtain ⟨b, entry, cell⟩ := Grid.mem_items.1 item
  obtain ⟨rfl, rfl⟩ : k = 0 ∧ b = spur.outline.box := by
    simpa [spurDraft, List.getElem?_singleton] using entry.symm
  have size : spurDraft.finish.buildingGrid.step = 10 := step
  have own : Grid.stepFor (spurDraft.buildings.toList.map (·.outline.box)) = 10 := step
  rw [size] at column
  rw [own, box] at cell
  have east : Grid.line (10 : ℝ) (min 11 10) = 1 := by
    norm_num [Grid.line]
  have west : Grid.line (10 : ℝ) 9.9999999999 = 0 := by
    rw [Grid.line, Scalar.floor_eq, Int.floor_eq_zero_iff]
    constructor <;> norm_num
  have first : Grid.line (10 : ℝ) (min 11 10) ≤ i := column
  have last : i ≤ Grid.line (10 : ℝ) 9.9999999999 := (Block.mem_cells.1 cell).1.2
  omega

theorem spur_obstructing : spurDraft.finish.obstructing ⟨11, 5, 1⟩ ⟨10, 5, 1⟩ = [] := by
  rw [Scene.obstructing_eq, spur_along, List.filter_nil]

theorem spur_plainObstructing :
    spurDraft.finish.plainObstructing ⟨11, 5, 1⟩ ⟨10, 5, 1⟩ = [0] := by
  have one : spurDraft.finish.buildings.size = 1 := rfl
  simp [Scene.plainObstructing, one, List.range_succ, spur_blocks]

theorem spurDraft_holesInBox : spurDraft.HolesInBox := by
  constructor
  · simp [spurDraft, spur, Polygon.HolesInBox]
  · simp [spurDraft, Draft.empty]

/-- The grid misses a building that has a part inside below its roof. -/
theorem spur_missed :
    spurDraft.Made ∧ spurDraft.HolesInBox ∧
      spurDraft.finish.obstructing ⟨11, 5, 1⟩ ⟨10, 5, 1⟩
        ≠ spurDraft.finish.plainObstructing ⟨11, 5, 1⟩ ⟨10, 5, 1⟩ := by
  refine ⟨spurDraft_made, spurDraft_holesInBox, ?_⟩
  rw [spur_obstructing, spur_plainObstructing]
  simp

/-- So of its buildings one is missed. -/
theorem spur_lookup :
    spurDraft.Made ∧ spurDraft.HolesInBox ∧
      ∃ b, spurDraft.finish.blocks ⟨11, 5, 1⟩ ⟨10, 5, 1⟩ b = true ∧
        spurDraft.finish.Missed ⟨11, 5, 1⟩ ⟨10, 5, 1⟩ b := by
  refine ⟨spurDraft_made, spurDraft_holesInBox, ?_⟩
  have lookup := Draft.finish_lookup spurDraft_made spurDraft_holesInBox
  by_contra! found
  have same := (lookup.2.2.1 ⟨11, 5, 1⟩ ⟨10, 5, 1⟩).2 found
  rw [spur_obstructing, spur_plainObstructing] at same
  simp at same

end RoadNoise
