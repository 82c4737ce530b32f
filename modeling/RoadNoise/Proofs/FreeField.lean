/-
# RoadNoise.Proofs.FreeField -- no path amplifies the free field

A path that is found can be scored, none of its terms is a gain, and it loses at
least what sound loses by spreading over the direct line.  For the last it has to be
as long as the direct line, and the only one that may not be is the path over the
top: an inside part beyond the end of the cut puts a wall within the tolerance of the
receiver, which the string then holds on to instead.
-/
import RoadNoise.Proofs.Lookup
import RoadNoise.Proofs.Received

set_option autoImplicit false

namespace RoadNoise

/-! ## Crests between the ends -/

namespace Scene

variable {s : Scene ℝ} {p q : Point ℝ}

/-- The inside parts of the buildings along a segment lie on it. -/
def PartsOnSegment (s : Scene ℝ) (p q : Point ℝ) : Prop :=
  ∀ found ∈ s.insideBuildings p q, 0 ≤ found.2.2.1 ∧ found.2.2.2 ≤ 1

theorem exists_of_mem_wallMarks_of_wall {m : Mark ℝ} {b : Nat} {roof : ℝ} {entering : Bool}
    (isMark : m ∈ (s.cut p q).marks) (kind : m.kind = .wall b roof entering) :
    ∃ found ∈ s.insideBuildings p q, m ∈ s.wallMarks p q found := by
  have isWall : m ∈ (s.cut p q).walls := List.mem_filter.2 ⟨isMark, by simp [Mark.isWall, kind]⟩
  exact mem_walls_cutThrough.1 isWall

theorem crestsBetween (long : 1 ≤ p.planarDistance q) (onSegment : s.PartsOnSegment p q) :
    (s.cut p q).CrestsBetween := by
  have positive := Scalar.eps_pos
  have length : (s.cut p q).length = p.planarDistance q := rfl
  rintro ⟨d, z⟩ crest
  obtain ⟨m, isMark, made⟩ := List.mem_filterMap.1 crest
  rw [length]
  split at made
  · rename_i b roof entering kind
    obtain ⟨rfl, rfl⟩ := Prod.mk.inj (Option.some.inj made)
    obtain ⟨⟨k, roof, ta, tb⟩, found, isMark⟩ := exists_of_mem_wallMarks_of_wall isMark kind
    have bounds := onSegment _ found
    have wide : ta + Scalar.eps ≤ tb := eps_le_of_mem_insideBuildings found
    rcases List.mem_append.1 isMark with enters | leaves
    · split_ifs at enters with start
      · simp at enters
      · obtain rfl := List.mem_singleton.1 enters
        constructor
        · dsimp only
          nlinarith
        · dsimp only at bounds ⊢
          nlinarith
    · split_ifs at leaves with stop
      · obtain rfl := List.mem_singleton.1 leaves
        constructor
        · dsimp only at bounds ⊢
          nlinarith
        · dsimp only at bounds ⊢
          nlinarith
      · simp at leaves
  · split_ifs at made with inner
    obtain ⟨rfl, rfl⟩ := Prod.mk.inj (Option.some.inj made)
    simp only [Cut.isInner, Bool.and_eq_true, decide_eq_true_eq] at inner
    exact ⟨positive.trans inner.1, by linarith [inner.2]⟩
  · simp at made

end Scene

/-! ## The bound -/

/-- Whatever path is found, it can be scored and none of its terms is a gain.  Unless it
leads over the top, along a cut with inside parts beyond its ends, it is as long as the
direct line, its losses are at least those by spreading over the direct line, and no
contribution is louder than that. -/
theorem free_field {d : Draft ℝ} (made : d.Made) {source receiver : Point ℝ}
    (apart : 1 ≤ source.planarDistance receiver) {options : PathOptions ℝ}
    {paths : List (Path ℝ)} (found : d.finish.findPaths source receiver options = .ok paths)
    {c : Calculator ℝ} (built : c.Built) {path : Path ℝ} (isPath : path ∈ paths) :
    path.directLength = source.distance receiver ∧
    ∃ losses, c.score path = .ok losses ∧ losses.perBand.length = c.bands.size ∧
      (∀ b ∈ losses.perBand, b.NoGain) ∧
      ((path.kind = .top → d.finish.PartsOnSegment source receiver) →
        source.distance receiver ≤ path.length ∧
        (∀ total ∈ losses.total, divergence (source.distance receiver) ≤ total) ∧
        ∀ number (emission : Spectrum ℝ) (contributed : Contribution ℝ),
          contribution c.bands number emission path losses = .ok contributed →
          ∀ (i : Nat) (level : ℝ), contributed.spectrum.levels[i]? = some level →
            ∃ emitted, emission.levels[i]? = some emitted ∧
              level ≤ max (emitted - divergence (source.distance receiver)) Level.silent) := by
  obtain ⟨_, -, found⟩ := bind_eq_ok_iff.1 found
  obtain rfl : _ = paths := by simpa [pure, Except.pure] using found
  have length := Scene.length_nonneg_of_mem_paths isPath
  have reflecting : ∀ a ∈ path.absorptions, 0 ≤ a ∧ a < 1 := by
    intro a absorbed
    obtain ⟨wall, isWall, rfl, reflects⟩ := Scene.exists_wall_of_mem_absorptions isPath absorbed
    exact ⟨(made.sound.wall_absorption isWall).1, reflects⟩
  obtain ⟨-, size, spec⟩ := Calculator.losses_spec built.sound length reflecting
  refine ⟨Scene.directLength_eq isPath, c.losses path, Calculator.score_eq length reflecting, size,
    fun b band => (spec b band).1, fun onSegment => ?_⟩
  have positive := Scalar.eps_lt_one
  have longer : source.distance receiver ≤ path.length :=
    Scene.le_length_of_mem_paths (by linarith) isPath
      fun top => Scene.crestsBetween apart (onSegment top)
  have total : ∀ x ∈ (c.losses path).total, divergence (source.distance receiver) ≤ x :=
    fun x band => (divergence_mono longer).trans
      (Calculator.le_total built.sound length reflecting x band)
  exact ⟨longer, total, fun _ _ _ computed _ _ band => le_of_contribution computed total band⟩

/-! ## A string that lets go of the receiver -/

/-- A ring around the start of the segment from `(11, 5)` to `(10, 5)`.  On the line of the
segment it has an edge that begins just beyond the end, next to a corner that reaches just
short of it. -/
noncomputable def hookRing : List (Point ℝ) :=
  [⟨0.9999999999, 95.000000006, 0⟩, ⟨9.9999999999, 5.000000006, 0⟩, ⟨9.9999999999, 0, 0⟩,
    ⟨11.0000000001, 10.0, 0⟩, ⟨20.0, 0, 0⟩, ⟨9.0, -1, 0⟩, ⟨9.9999999991, 5.0, 0⟩, ⟨0, 5.0, 0⟩]

noncomputable def hook : Building ℝ where
  outline := ⟨hookRing, [], Box.around ⟨0.9999999999, 95.000000006, 0⟩ hookRing.tail⟩
  height := .absolute 9.0
  absorption := none

noncomputable def hookDraft : Draft ℝ := { Draft.empty with buildings := #[hook] }

theorem hook_drawn : hook.outline.Drawn := by
  refine Polygon.drawn_of_pairwise (by simp) ?_ ?_
  · simp [Point.samePlanar, Scalar.eps_eq]
    norm_num [abs_le]
  · simp [Ring.area, Sequence.cyclic, Scalar.eps_eq]
    norm_num

theorem hookDraft_made : hookDraft.Made :=
  .edit (e := .building hook) .empty hook_drawn rfl

theorem hookDraft_holesInBox : hookDraft.HolesInBox := by
  constructor
  · simp [hookDraft, hook, Polygon.HolesInBox]
  · simp [hookDraft, Draft.empty]

/-- The source, next to the end of the segment and a kilometre above the receiver. -/
noncomputable def hookSource : Point ℝ := ⟨11.0, 5.0, 0⟩

noncomputable def hookReceiver : Point ℝ := ⟨10.0, 5.0, -1000.0⟩

theorem hook_positions :
    hook.outline.edges.flatMap (fun e => (Crossing.of hookSource hookReceiver e.1 e.2).positions)
      = [0.9999999995, 1, 0.5, 1, 1.0000000009, 1] := by
  simp [Polygon.edges, Polygon.rings, hook, hookRing, Sequence.cyclic, Crossing.of,
    Crossing.ofParallel, Displacement.cross, Displacement.dot, Scalar.eps_eq, Scalar.clamp,
    hookSource, hookReceiver]
  norm_num [Crossing.positions]

theorem hook_boundaryCrossings : hook.outline.boundaryCrossings hookSource hookReceiver
    = [0.5, 0.9999999995, 1.0000000009] := by
  have overlaps : hook.outline.box.overlaps (Box.ofSegment hookSource hookReceiver) = true := by
    simp [hook, hookRing, Box.around, Box.expand, Box.overlaps, Box.ofSegment, Scalar.eps_eq,
      hookSource, hookReceiver]
    norm_num
  have sorted : Sequence.sortOn Scalar.order [(0.9999999995 : ℝ), 1, 0.5, 1, 1.0000000009, 1]
      = [0.5, 0.9999999995, 1, 1, 1, 1.0000000009] := by
    refine Sequence.sortOn_order_eq ?_ (by norm_num)
    refine (List.Perm.cons _ (.swap _ _ _)).trans ((List.Perm.swap _ _ _).trans ?_)
    exact .cons _ (.cons _ (.cons _ (.cons _ (.swap _ _ _))))
  rw [Polygon.boundaryCrossings, if_pos overlaps, hook_positions]
  simp only [sorted]
  simp [Sequence.thin, Sequence.thinAfter, Scalar.near, Scalar.eps_eq]
  norm_num [abs_lt]

theorem hook_insideParts : hook.outline.insideParts hookSource hookReceiver
    = [(0, 0.5), (0.9999999995, 1.0000000009)] := by
  have sorted : Sequence.sortOn Scalar.order [(0 : ℝ), 0.5, 0.9999999995, 1.0000000009, 1]
      = [0, 0.5, 0.9999999995, 1, 1.0000000009] := by
    refine Sequence.sortOn_order_eq ?_ (by norm_num)
    exact .cons _ (.cons _ (.cons _ (.swap _ _ _)))
  have tidied : tidyPositions ((0 : ℝ) :: [0.5, 0.9999999995, 1.0000000009] ++ [1])
      = [0, 0.5, 0.9999999995, 1.0000000009] := by
    rw [tidyPositions, List.cons_append, List.cons_append, List.cons_append, List.cons_append,
      List.nil_append, sorted]
    simp [Sequence.thin, Sequence.thinAfter, Scalar.near, Scalar.eps_eq]
    norm_num [abs_lt]
  have first : hook.outline.contains
      (Point.between hookSource hookReceiver (0.5 * (0 + 0.5))) = true := by
    simp [Polygon.contains, Box.holds, hook, hookRing, Box.around, Box.expand, Point.between,
      Scalar.eps_eq, Polygon.edges, Polygon.rings, Sequence.cyclic, hookSource, hookReceiver]
    norm_num [List.countP_cons, Polygon.meetsRay_iff]
  have second : hook.outline.contains
      (Point.between hookSource hookReceiver (0.5 * (0.5 + 0.9999999995))) = false := by
    simp [Polygon.contains, Box.holds, hook, hookRing, Box.around, Box.expand, Point.between,
      Scalar.eps_eq, Polygon.edges, Polygon.rings, Sequence.cyclic, hookSource, hookReceiver]
    norm_num [List.countP_cons, Polygon.meetsRay_iff]
  have third : hook.outline.contains
      (Point.between hookSource hookReceiver (0.5 * (0.9999999995 + 1.0000000009))) = true := by
    simp [Polygon.contains, Box.holds, hook, hookRing, Box.around, Box.expand, Point.between,
      Scalar.eps_eq, Polygon.edges, Polygon.rings, Sequence.cyclic, hookSource, hookReceiver]
    norm_num [List.countP_cons, Polygon.meetsRay_iff]
  have kept : (Sequence.adjacent [(0 : ℝ), 0.5, 0.9999999995, 1.0000000009]).filter (fun e =>
      hook.outline.contains (Point.between hookSource hookReceiver (0.5 * (e.1 + e.2))))
        = [(0, 0.5), (0.9999999995, 1.0000000009)] := by
    simp only [Sequence.adjacent_cons_cons, List.filter_cons, first, second, third]
    rfl
  simp only [Polygon.insideParts, hook_boundaryCrossings, tidied]
  refine (congrArg joinParts kept).trans ?_
  simp [joinParts, joinFrom, Scalar.near, Scalar.eps_eq]
  norm_num [le_abs]

theorem hook_length : hookSource.planarDistance hookReceiver = 1 := by
  rw [Point.planarDistance_eq, hookSource, hookReceiver]
  norm_num

theorem hook_meets : hookDraft.finish.Meets hookSource hookReceiver 0 := by
  refine ⟨hook, rfl, 0.25, by norm_num, by norm_num, ?_⟩
  simp [Polygon.contains, Box.holds, hook, hookRing, Box.around, Box.expand, Point.between,
    Scalar.eps_eq, Polygon.edges, Polygon.rings, Sequence.cyclic, hookSource, hookReceiver]
  norm_num [List.countP_cons, Polygon.meetsRay_iff]

theorem hook_obstructs : 0 ∈ hookDraft.finish.obstructing hookSource hookReceiver := by
  rw [Scene.obstructing_eq, List.mem_filter]
  refine ⟨Draft.mem_along_of_meets hookDraft_made hookDraft_holesInBox hook_meets, ?_⟩
  have low : min (hookSource.z + 0 * (hookReceiver.z - hookSource.z))
      (hookSource.z + 0.5 * (hookReceiver.z - hookSource.z)) < 9.0 - Scalar.eps := by
    norm_num [Scalar.eps_eq, hookSource, hookReceiver]
  simp only [Scene.blocks, Draft.finish, hookDraft, List.getElem?_toArray, List.map_toArray,
    List.getElem?_cons_zero, List.map_cons, hook_insideParts]
  simp only [List.any_cons, Bool.or_eq_true, decide_eq_true_eq]
  exact .inl low

theorem hook_partsInside (b : Nat) : hookDraft.finish.partsInside hookSource hookReceiver b
    = if b = 0 then [(0, 9, (0, 0.5)), (0, 9, (0.9999999995, 1.0000000009))] else [] := by
  cases b with
  | zero =>
      simp only [Scene.partsInside, Draft.finish, hookDraft, List.getElem?_toArray,
        List.map_toArray, List.getElem?_cons_zero, List.map_cons, hook_insideParts]
      norm_num [Building.roof, hook]
  | succ b => simp [Scene.partsInside, Draft.finish, hookDraft]

theorem hook_elevation (x y : ℝ) : hookDraft.finish.elevation x y = 0 := rfl

theorem hook_groundMarks : hookDraft.finish.groundMarks hookSource hookReceiver
    = [⟨0, hookSource, .ground⟩, ⟨1, ⟨10, 5, 0⟩, .ground⟩] := by
  have relief : hookDraft.finish.relief = none := rfl
  simp only [Scene.groundMarks, relief, hook_elevation, hook_length]
  norm_num [Point.raisedTo, hookSource, hookReceiver]

/-- Without ground areas the ground is one part. -/
theorem Draft.finish_groundParts {d : Draft ℝ} (bare : d.areas = #[]) (p q : Point ℝ) :
    d.finish.groundParts p q = [(0, 1)] := by
  have along : d.finish.areaGrid.along p q = [] := by
    refine List.eq_nil_iff_forall_not_mem.2 fun k found => ?_
    obtain ⟨box, entry⟩ := Grid.exists_box_of_mem_along found
    simp [bare] at entry
  have sorted : Sequence.sortOn Scalar.order [(0 : ℝ), 1] = [0, 1] :=
    Sequence.sortOn_order_eq (.refl _) (by norm_num)
  simp only [Scene.groundParts, along, List.flatMap_nil, List.append_nil, tidyPositions, sorted]
  simp [Sequence.thin, Sequence.thinAfter, Sequence.adjacent, Scalar.near, Scalar.eps_eq]
  norm_num

theorem hook_marks : (hookDraft.finish.cut hookSource hookReceiver).marks
    = [⟨0, hookSource, .ground⟩, ⟨0.5, ⟨10.5, 5, 0⟩, .wall 0 9 false⟩,
      ⟨0.9999999995, ⟨10.0000000005, 5, 0⟩, .wall 0 9 true⟩, ⟨1, ⟨10, 5, 0⟩, .ground⟩] := by
  have found : ∀ b, hookDraft.finish.partsInside hookSource hookReceiver b ≠ [] →
      ¬hookDraft.finish.Missed hookSource hookReceiver b := by
    intro b parts missed
    rw [hook_partsInside] at parts
    obtain rfl : b = 0 := by
      by_contra other
      simp [other] at parts
    exact missed.1 hook_meets
  have one : hookDraft.finish.buildings.size = 1 := rfl
  have inside : (List.range hookDraft.finish.buildings.size).flatMap
      (hookDraft.finish.partsInside hookSource hookReceiver)
        = [(0, 9, (0, 0.5)), (0, 9, (0.9999999995, 1.0000000009))] := by
    simp [one, List.range_succ, hook_partsInside]
  have walls : [((0 : Nat), (9 : ℝ), ((0 : ℝ), (0.5 : ℝ))),
      (0, 9, (0.9999999995, 1.0000000009))].flatMap
        (hookDraft.finish.wallMarks hookSource hookReceiver)
        = [⟨0.5, ⟨10.5, 5, 0⟩, .wall 0 9 false⟩,
          ⟨0.9999999995, ⟨10.0000000005, 5, 0⟩, .wall 0 9 true⟩] := by
    simp only [List.flatMap_cons, List.flatMap_nil, Scene.wallMarks, Scene.groundPoint,
      hook_elevation, hook_length]
    simp [Scalar.eps_eq, Point.raisedTo, Point.between, hookSource, hookReceiver]
    norm_num
  rw [Draft.finish_cut hookDraft_made hookDraft_holesInBox found, Scene.plainCut, inside]
  simp only [Scene.cutThrough, hook_groundMarks, Draft.finish_groundParts (d := hookDraft) rfl,
    walls, List.tail_cons, Scene.factorMarks, List.append_nil, List.cons_append, List.nil_append]
  refine Sequence.sortOn_key_eq Mark.distance ?_ ?_
  · exact .cons _ ((List.Perm.swap _ _ _).trans (.cons _ (.swap _ _ _)))
  · norm_num

theorem hook_crests : (hookDraft.finish.cut hookSource hookReceiver).crests
    = [(0.5, 9), (0.9999999995, 9)] := by
  have outer : ∀ m : Mark ℝ, m.distance = 0 ∨ m.distance = 1 →
      (hookDraft.finish.cut hookSource hookReceiver).isInner m = false := by
    intro m ends
    rw [← Bool.not_eq_true, Scene.isInner_iff, hook_length]
    have positive := Scalar.eps_pos
    rcases ends with start | stop
    · rw [start]
      intro inner
      linarith
    · rw [stop]
      intro inner
      linarith
  rw [Cut.crests, hook_marks]
  simp [outer]

/-- The wall at the end of the segment holds the string in place of the receiver. -/
theorem hook_taut :
    Hull.taut [((0 : ℝ), (0 : ℝ)), (0.5, 9), (0.9999999995, 9), (1, -1000)] = [0, 1, 2] := by
  have sorted : Sequence.sortOn Hull.Peg.order
      [(⟨0, 0, 0⟩ : Hull.Peg ℝ), ⟨1, 0.5, 9⟩, ⟨2, 0.9999999995, 9⟩, ⟨3, 1, -1000⟩]
        = [⟨0, 0, 0⟩, ⟨1, 0.5, 9⟩, ⟨2, 0.9999999995, 9⟩, ⟨3, 1, -1000⟩] := by
    refine List.mergeSort_of_pairwise ?_
    simp only [List.pairwise_cons, Hull.Peg.isLE_order_iff]
    norm_num
  have second : Hull.Peg.sunken ⟨0, 0, 0⟩ ⟨1, 0.5, 9⟩ ⟨2, (0.9999999995 : ℝ), 9⟩ = false := by
    simp [Hull.Peg.sunken, Hull.turn, Scalar.eps_eq]
    norm_num
  have third : Hull.Peg.sunken ⟨1, 0.5, 9⟩ ⟨2, (0.9999999995 : ℝ), 9⟩ ⟨3, 1, -1000⟩ = false := by
    simp [Hull.Peg.sunken, Hull.turn, Scalar.eps_eq]
    norm_num
  have clear : Scalar.near (0.5 : ℝ) 0.9999999995 = false := by
    rw [Scalar.near_eq_false_iff, Scalar.eps_eq]
    norm_num [le_abs]
  have close : Scalar.near (0.9999999995 : ℝ) 1 = true := by
    rw [Scalar.near_iff, Scalar.eps_eq]
    norm_num [abs_lt]
  have start : Hull.Peg.hang (Hull.Peg.hang [] ⟨0, 0, 0⟩) ⟨1, (0.5 : ℝ), 9⟩
      = [⟨1, 0.5, 9⟩, ⟨0, 0, 0⟩] := by
    simp [Hull.Peg.hang, Hull.slacken, Scalar.near, Scalar.eps_eq]
    norm_num
  simp only [Hull.taut, List.zipIdx_cons, List.zipIdx_nil, List.map_cons, List.map_nil, zero_add,
    Nat.reduceAdd, sorted, List.foldl_cons, List.foldl_nil, start,
    Hull.Peg.hang_of_stands second, clear, Bool.false_eq_true, if_false,
    Hull.Peg.hang_of_stands third, close, if_true]
  rfl

theorem hook_tautWay : (hookDraft.finish.cut hookSource hookReceiver).tautWay
    = [⟨11, 5, 0⟩, ⟨10.5, 5, 9⟩, ⟨10.0000000005, 5, 9⟩] := by
  have long : (hookDraft.finish.cut hookSource hookReceiver).length = 1 := hook_length
  have start : (hookDraft.finish.cut hookSource hookReceiver).p1 = hookSource := rfl
  have stop : (hookDraft.finish.cut hookSource hookReceiver).p2 = hookReceiver := rfl
  have ends : (hookDraft.finish.cut hookSource hookReceiver).profilePoints
      = [((0 : ℝ), (0 : ℝ)), (0.5, 9), (0.9999999995, 9), (1, -1000)] := by
    rw [Cut.profilePoints, hook_crests, long, start, stop]
    norm_num [hookSource, hookReceiver]
  rw [Cut.tautWay, ends, hook_taut]
  simp only [List.filterMap_cons, List.filterMap_nil, Cut.pointAt, long, start, stop]
  simp [Point.between, Point.raisedTo, hookSource, hookReceiver]
  norm_num

theorem hook_distance : 1000 ≤ hookSource.distance hookReceiver := by
  rw [Point.distance_eq, hookSource, hookReceiver]
  exact Real.le_sqrt_of_sq_le (by norm_num)

theorem hook_tautWay_length :
    Polyline.length (hookDraft.finish.cut hookSource hookReceiver).tautWay ≤ 11 := by
  have up : Point.distance (⟨11, 5, 0⟩ : Point ℝ) ⟨10.5, 5, 9⟩ ≤ 10 := by
    rw [Point.distance_eq]
    exact Real.sqrt_le_iff.2 (by norm_num)
  have along : Point.distance (⟨10.5, 5, 9⟩ : Point ℝ) ⟨10.0000000005, 5, 9⟩ ≤ 1 := by
    rw [Point.distance_eq]
    exact Real.sqrt_le_iff.2 (by norm_num)
  rw [hook_tautWay]
  simp only [Polyline.length_cons_cons, Polyline.length_singleton]
  linarith

theorem hook_accepted : (PathOptions.standard : PathOptions ℝ).check hookSource hookReceiver
    = .ok () := by
  have apart : Scalar.eps ≤ hookSource.distance hookReceiver := by
    have direct := hook_distance
    have small := Scalar.eps_lt_one
    linarith
  simp [PathOptions.check, PathOptions.standard, require, Point.isFinite, apart, bind,
    Except.bind, pure, Except.pure]

/-- A path over the top that is shorter than the direct line by nearly a kilometre. -/
theorem hook_amplifies :
    hookDraft.Made ∧ 1 ≤ hookSource.planarDistance hookReceiver ∧
      ∃ paths, hookDraft.finish.findPaths hookSource hookReceiver .standard = .ok paths ∧
        ∃ path ∈ paths, path.length < hookSource.distance hookReceiver := by
  have direct := hook_distance
  have short := hook_tautWay_length
  have accepted := hook_accepted
  have blocked : (hookDraft.finish.obstructing hookSource hookReceiver).isEmpty = false :=
    List.isEmpty_eq_false_iff_exists_mem.2 ⟨0, hook_obstructs⟩
  refine ⟨hookDraft_made, hook_length.ge, _, bind_eq_ok_iff.2 ⟨(), accepted, rfl⟩, ?_⟩
  obtain ⟨path, top⟩ : ∃ path, (hookDraft.finish.cut hookSource hookReceiver).topPath
      (hookSource.distance hookReceiver)
      (hookDraft.finish.footing [hookSource, hookReceiver] PathOptions.standard.sourceFactor)
        = some path := by
    simp [Cut.topPath, hook_tautWay]
  refine ⟨path, ?_, ?_⟩
  · refine List.mem_append_left _ (List.mem_cons_of_mem _ ?_)
    simp only [Scene.bentPaths, blocked, Bool.false_and, Bool.false_eq_true, if_false]
    exact List.mem_append_left _ (by simpa [PathOptions.standard] using top)
  · rw [(Scene.topPath_eq_some top).2.1]
    linarith

end RoadNoise
