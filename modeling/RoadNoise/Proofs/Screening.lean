/-
# RoadNoise.Proofs.Screening -- what obstructs also screens

Whether something obstructs the line of sight is decided by the lowest end of each
inside part and by the ground above the line; what screens the direct path is the
crests above the line.  Wherever a crest stands above the line something obstructs
(`obstructed_of_crest`), and whatever obstructs has a crest above the line unless its
inside parts touch an end of the segment (`exists_crest_of_obstructed`).

A crest above the line is off the line, so the way over it is longer, and the loss over
its edge is positive in every band.
-/
import RoadNoise.Proofs.FreeField
import RoadNoise.Proofs.Sight

set_option autoImplicit false

namespace RoadNoise

/-! ## The way over a crest -/

/-- The way over a place that is above or below the straight line is longer. -/
theorem Point.distance_lt_of_off_line {p q m : Point ℝ} {t : ℝ} (long : 0 < p.planarDistance q)
    (above : m.Above (between p q t)) (off : m.z ≠ p.z + t * (q.z - p.z)) :
    p.distance q < p.distance m + m.distance q := by
  refine (p.distance_triangle m q).lt_of_ne fun straight => off ?_
  simp only [distance_eq_dist] at straight
  -- only places of the segment add nothing
  obtain ⟨r, -, place⟩ := dist_add_dist_eq_iff.1 straight.symm
  have coordinate : ∀ i, p.toSpace i + r * (q.toSpace i - p.toSpace i) = m.toSpace i := by
    intro i
    rw [← place, AffineMap.lineMap_apply]
    simp [add_comm]
  have atX : p.x + r * (q.x - p.x) = m.x := by simpa [toSpace] using coordinate 0
  have atY : p.y + r * (q.y - p.y) = m.y := by simpa [toSpace] using coordinate 1
  have atZ : p.z + r * (q.z - p.z) = m.z := by simpa [toSpace] using coordinate 2
  obtain ⟨aboveX, aboveY⟩ := above
  simp only [between] at aboveX aboveY
  have square : (r - t) ^ 2 * ((q.x - p.x) ^ 2 + (q.y - p.y) ^ 2) = 0 := by
    have byX : (r - t) * (q.x - p.x) = 0 := by linarith
    have byY : (r - t) * (q.y - p.y) = 0 := by linarith
    linear_combination (r - t) * (q.x - p.x) * byX + (r - t) * (q.y - p.y) * byY
  have same : r = t := by
    have wide : (q.x - p.x) ^ 2 + (q.y - p.y) ^ 2 ≠ 0 := (Real.sqrt_pos.1 long).ne'
    simpa [sub_eq_zero, wide] using square
  rw [← atZ, same]

namespace Cut

variable {c : Cut ℝ}

theorem greaterDetour_mem (a b : Detour ℝ) : greaterDetour a b = a ∨ greaterDetour a b = b := by
  unfold greaterDetour
  split_ifs
  · exact .inl rfl
  · exact .inr rfl

theorem le_greaterDetour (a b : Detour ℝ) :
    a.delta ≤ (greaterDetour a b).delta ∧ b.delta ≤ (greaterDetour a b).delta := by
  unfold greaterDetour
  split_ifs with greater
  · exact ⟨le_rfl, (cmp_eq_gt_iff _ _).1 greater |>.le⟩
  · exact ⟨not_lt.1 fun less => greater ((cmp_eq_gt_iff _ _).2 less), le_rfl⟩

/-- The greatest of several detours is one of them. -/
theorem foldl_greaterDetour (first : Detour ℝ) (rest : List (Detour ℝ)) :
    rest.foldl greaterDetour first ∈ first :: rest ∧
      ∀ other ∈ first :: rest, other.delta ≤ (rest.foldl greaterDetour first).delta := by
  induction rest generalizing first with
  | nil => simp
  | cons next rest ih =>
      obtain ⟨entry, greatest⟩ := ih (greaterDetour first next)
      obtain ⟨leFirst, leNext⟩ := le_greaterDetour first next
      have top := greatest _ List.mem_cons_self
      rw [List.foldl_cons]
      constructor
      · rcases List.mem_cons.1 entry with found | later
        · rw [found]
          rcases greaterDetour_mem first next with same | same <;> simp [same]
        · simp [later]
      · intro other listed
        rcases List.mem_cons.1 listed with rfl | listed
        · exact leFirst.trans top
        · rcases List.mem_cons.1 listed with rfl | listed
          · exact leNext.trans top
          · exact greatest other (List.mem_cons_of_mem _ listed)

/-- The crest stands above the straight line. -/
def Screens (c : Cut ℝ) (crest : ℝ × ℝ) : Prop :=
  crest ∈ c.crests ∧ c.lineElevation crest.1 + Scalar.eps < crest.2

/-- The way over a crest. -/
noncomputable def overCrest (c : Cut ℝ) (crest : ℝ × ℝ) (directLength : ℝ) : Detour ℝ :=
  Detour.ofWay [c.p1, c.pointAt crest.1 crest.2, c.p2] directLength

theorem delta_overCrest (c : Cut ℝ) (crest : ℝ × ℝ) (directLength : ℝ) :
    (c.overCrest crest directLength).delta = c.p1.distance (c.pointAt crest.1 crest.2)
      + (c.pointAt crest.1 crest.2).distance c.p2 - directLength := by
  simp only [overCrest, Detour.ofWay, Polyline.length_cons_cons, Polyline.length_singleton,
    add_zero]

theorem screening_eq_none_iff {directLength : ℝ} :
    c.screening directLength = none ↔ ∀ crest, ¬c.Screens crest := by
  unfold screening
  dsimp only
  split
  · rename_i none
    simp only [List.map_eq_nil_iff, List.filter_eq_nil_iff, decide_eq_true_eq] at none
    exact iff_of_true rfl fun crest screens => none crest screens.1 screens.2
  · rename_i first rest some
    refine iff_of_false (by simp) fun none => ?_
    have entry : first ∈ first :: rest := List.mem_cons_self
    rw [← some, List.mem_map] at entry
    obtain ⟨crest, above, -⟩ := entry
    simp only [List.mem_filter, decide_eq_true_eq] at above
    exact none crest above

/-- The direct line is screened by the crest above it that takes the longest way. -/
theorem screening_spec {directLength : ℝ} {detour : Detour ℝ}
    (screened : c.screening directLength = some detour) :
    (∃ crest, c.Screens crest ∧ detour = c.overCrest crest directLength) ∧
      ∀ crest, c.Screens crest → (c.overCrest crest directLength).delta ≤ detour.delta := by
  unfold screening at screened
  dsimp only at screened
  split at screened
  · simp at screened
  · rename_i first rest some
    obtain rfl := Option.some.inj screened
    obtain ⟨entry, greatest⟩ := foldl_greaterDetour first rest
    rw [← some] at entry greatest
    constructor
    · obtain ⟨crest, above, made⟩ := List.mem_map.1 entry
      simp only [List.mem_filter, decide_eq_true_eq] at above
      exact ⟨crest, above, made.symm⟩
    · intro crest screens
      exact greatest _ (List.mem_map_of_mem (List.mem_filter.2
        ⟨screens.1, decide_eq_true screens.2⟩))

end Cut

/-! ## Crests and obstacles -/

namespace Polygon

/-- A segment without a length meets no boundary, so it lies inside as a whole. -/
theorem insideParts_of_coincident (polygon : Polygon ℝ) {p q : Point ℝ}
    (short : p.planarDistance q = 0) : ∀ part ∈ polygon.insideParts p q, part = (0, 1) := by
  have same : q.x - p.x = 0 ∧ q.y - p.y = 0 := by
    constructor
    · exact abs_nonpos_iff.1 (short ▸ p.abs_x_le_planarDistance q)
    · exact abs_nonpos_iff.1 (short ▸ p.abs_y_le_planarDistance q)
  have nowhere : ∀ a b : Point ℝ, Crossing.of p q a b = .none := by
    intro a b
    have square : (0 : ℝ) < Scalar.eps * Scalar.eps := mul_pos Scalar.eps_pos Scalar.eps_pos
    simp [Crossing.of, Crossing.ofParallel, Displacement.cross, Displacement.dot, same,
      Scalar.eps_pos, square]
  have none : polygon.boundaryCrossings p q = [] := by
    have met : polygon.edges.flatMap (fun e => (Crossing.of p q e.1 e.2).positions) = [] :=
      List.flatMap_eq_nil_iff.2 fun e _ => congrArg Crossing.positions (nowhere e.1 e.2)
    unfold boundaryCrossings
    split
    · simp [met, Sequence.sortOn, Sequence.thin]
    · rfl
  have tidy : tidyPositions [(0 : ℝ), 1] = [0, 1] :=
    tidyPositions_eq (.refl _) (by simpa using Scalar.eps_lt_one.le)
  intro part inside
  unfold insideParts at inside
  simp only [none, List.cons_append, List.nil_append, tidy, Sequence.adjacent, List.tail_cons,
    List.zip_cons_cons, List.zip_nil_right, List.filter_cons, List.filter_nil] at inside
  split_ifs at inside
  · simpa [joinParts, joinFrom] using inside
  · simp [joinParts] at inside

end Polygon

namespace Scene

variable {s : Scene ℝ} {p q : Point ℝ}

/-- A part of the building on the segment begins at `t`, past the start, or ends there,
before the end. -/
def WallAt (s : Scene ℝ) (p q : Point ℝ) (b : Nat) (roof t : ℝ) : Prop :=
  ∃ building, s.buildings[b]? = some building ∧ s.roofs[b]? = some roof ∧
    ∃ part ∈ building.outline.insideParts p q,
      t = part.1 ∧ Scalar.eps < t ∨ t = part.2 ∧ t < 1 - Scalar.eps

theorem exists_wallMark_iff {b : Nat} {roof : ℝ} {part : ℝ × ℝ} {distance : ℝ} :
    (∃ m ∈ s.wallMarks p q (b, roof, part), m.distance = distance) ↔
      ∃ t, (t = part.1 ∧ Scalar.eps < t ∨ t = part.2 ∧ t < 1 - Scalar.eps) ∧
        distance = t * p.planarDistance q := by
  obtain ⟨ta, tb⟩ := part
  unfold wallMarks
  constructor
  · rintro ⟨m, isMark, rfl⟩
    rcases List.mem_append.1 isMark with enters | leaves
    · split_ifs at enters with start
      · simp at enters
      · obtain rfl := List.mem_singleton.1 enters
        exact ⟨ta, .inl ⟨rfl, not_le.1 start⟩, rfl⟩
    · split_ifs at leaves with stop
      · obtain rfl := List.mem_singleton.1 leaves
        exact ⟨tb, .inr ⟨rfl, stop⟩, rfl⟩
      · simp at leaves
  · rintro ⟨t, ⟨rfl, start⟩ | ⟨rfl, stop⟩, rfl⟩
    · dsimp only
      rw [if_neg (not_le.2 start)]
      exact ⟨_, List.mem_append_left _ (List.mem_singleton_self _), rfl⟩
    · dsimp only
      rw [if_pos stop]
      exact ⟨_, List.mem_append_right _ (List.mem_singleton_self _), rfl⟩

/-- The crests of a cut are the roofs at its walls and the inner marks of the ground. -/
theorem mem_crests_iff {x z : ℝ} : (x, z) ∈ (s.cut p q).crests ↔
    (∃ b ∈ s.buildingGrid.along p q, ∃ t, s.WallAt p q b z t ∧ x = t * p.planarDistance q) ∨
    ∃ m ∈ s.groundMarks p q, (s.cut p q).isInner m = true ∧ x = m.distance ∧ z = m.position.z := by
  rw [Cut.crests, List.mem_filterMap]
  constructor
  · rintro ⟨m, isMark, made⟩
    split at made
    · rename_i k roof entering kind
      obtain ⟨rfl, rfl⟩ := Prod.mk.inj (Option.some.inj made)
      obtain ⟨⟨b, top, part⟩, found, isMark⟩ := exists_of_mem_wallMarks_of_wall isMark kind
      obtain ⟨b', visited, listed⟩ := List.mem_flatMap.1 found
      obtain ⟨building, roof', isBuilding, isRoof, part', inside, same⟩ := mem_partsInside.1 listed
      obtain ⟨rfl, rfl, rfl⟩ : b = b' ∧ top = roof' ∧ part = part' := by simpa using same
      obtain ⟨_, kind'⟩ := exists_of_mem_wallMarks isMark
      obtain ⟨-, rfl, -⟩ : k = b ∧ roof = top ∧ _ := by simpa [kind] using kind'
      obtain ⟨t, place, distance⟩ := exists_wallMark_iff.1 ⟨m, isMark, rfl⟩
      exact .inl ⟨b, visited, t, ⟨building, isBuilding, isRoof, part, inside, place⟩, distance⟩
    · rename_i kind
      split_ifs at made with inner
      obtain ⟨rfl, rfl⟩ := Prod.mk.inj (Option.some.inj made)
      exact .inr ⟨m, (s.mem_groundMarks_iff p q m).1 ⟨isMark, by simp [Mark.isGround, kind]⟩, inner,
        rfl, rfl⟩
    · simp at made
  · rintro (⟨b, found, t, ⟨building, isBuilding, isRoof, part, inside, place⟩, rfl⟩ |
      ⟨m, ground, inner, rfl, rfl⟩)
    · have wall : ∃ m ∈ s.wallMarks p q (b, z, part), m.distance = t * p.planarDistance q :=
        exists_wallMark_iff.2 ⟨t, place, rfl⟩
      obtain ⟨m, isMark, distance⟩ := wall
      obtain ⟨entering, kind⟩ := exists_of_mem_wallMarks isMark
      have listed : m ∈ (s.cut p q).walls := by
        rw [cut_eq, mem_walls_cutThrough]
        exact ⟨_, List.mem_flatMap.2 ⟨b, found,
          mem_partsInside.2 ⟨building, z, isBuilding, isRoof, part, inside, rfl⟩⟩, isMark⟩
      exact ⟨m, (List.mem_filter.1 listed).1, by simp [kind, distance]⟩
    · obtain ⟨isMark, isGround⟩ := (s.mem_groundMarks_iff p q m).2 ground
      have kind := isGround_of_mem_groundMarks ground
      exact ⟨m, isMark, by simp [kind, inner]⟩

/-- A crest above the line is off the ends, and what it belongs to obstructs. -/
theorem obstructed_of_crest {crest : ℝ × ℝ} (screens : (s.cut p q).Screens crest) :
    0 < p.planarDistance q ∧ s.obstructed p q = true := by
  obtain ⟨x, z⟩ := crest
  obtain ⟨isCrest, above⟩ := screens
  rw [s.obstructed_iff p q]
  rcases mem_crests_iff.1 isCrest with
    ⟨b, found, t, ⟨building, isBuilding, isRoof, part, inside, place⟩, rfl⟩ |
    ⟨m, ground, inner, rfl, rfl⟩
  · have long : 0 < p.planarDistance q := by
      refine (p.planarDistance_nonneg q).lt_of_ne fun short => ?_
      obtain rfl := building.outline.insideParts_of_coincident short.symm part inside
      rcases place with ⟨rfl, start⟩ | ⟨rfl, stop⟩
      · exact absurd start Scalar.eps_pos.le.not_gt
      · linarith [Scalar.eps_pos]
    refine ⟨long, .inl ⟨b, found, ?_⟩⟩
    rw [s.lineElevation_mul p q long] at above
    have below : min (p.z + part.1 * (q.z - p.z)) (p.z + part.2 * (q.z - p.z))
        < z - Scalar.eps := by
      rcases place with ⟨rfl, -⟩ | ⟨rfl, -⟩
      · exact (min_le_left _ _).trans_lt (by linarith)
      · exact (min_le_right _ _).trans_lt (by linarith)
    simp only [blocks, isBuilding, isRoof, List.any_eq_true]
    exact ⟨part, inside, decide_eq_true below⟩
  · have bounds := (s.isInner_iff p q).1 inner
    exact ⟨by linarith [bounds.1, bounds.2, Scalar.eps_pos], .inr ((s.hides_iff p q).2
      ⟨m, ground, inner, above⟩)⟩

/-- What obstructs has a crest above the line, unless parts reach to an end. -/
theorem exists_crest_of_obstructed (obstructed : s.obstructed p q = true)
    (clear : ∀ building ∈ s.buildings, ∀ part ∈ building.outline.insideParts p q,
      Scalar.eps < part.1 ∧ part.2 < 1 - Scalar.eps) :
    ∃ crest, (s.cut p q).Screens crest := by
  rcases (s.obstructed_iff p q).1 obstructed with ⟨b, found, blocked⟩ | hidden
  · obtain ⟨building, roof, isBuilding, isRoof, part, inside, below⟩ := exists_of_blocks blocked
    obtain ⟨start, stop⟩ := clear building (Array.mem_of_getElem? isBuilding) part inside
    have long : 0 < p.planarDistance q := by
      refine (p.planarDistance_nonneg q).lt_of_ne fun short => ?_
      obtain rfl := building.outline.insideParts_of_coincident short.symm part inside
      exact absurd start Scalar.eps_pos.le.not_gt
    -- the lower end of the part is a wall
    obtain ⟨t, place, low⟩ : ∃ t, (t = part.1 ∧ Scalar.eps < t ∨ t = part.2 ∧ t < 1 - Scalar.eps) ∧
        p.z + t * (q.z - p.z) < roof - Scalar.eps := by
      rcases min_lt_iff.1 below with low | low
      · exact ⟨part.1, .inl ⟨rfl, start⟩, low⟩
      · exact ⟨part.2, .inr ⟨rfl, stop⟩, low⟩
    refine ⟨(t * p.planarDistance q, roof), mem_crests_iff.2 (.inl ⟨b, found, t,
      ⟨building, isBuilding, isRoof, part, inside, place⟩, rfl⟩), ?_⟩
    rw [s.lineElevation_mul p q long]
    linarith
  · obtain ⟨m, ground, inner, above⟩ := (s.hides_iff p q).1 hidden
    exact ⟨(m.distance, m.position.z), mem_crests_iff.2 (.inr ⟨m, ground, inner, rfl, rfl⟩), above⟩

/-- The way over a crest above the line is a detour. -/
theorem delta_pos_of_screens {crest : ℝ × ℝ} (screens : (s.cut p q).Screens crest) :
    0 < ((s.cut p q).overCrest crest (p.distance q)).delta := by
  obtain ⟨long, -⟩ := obstructed_of_crest screens
  have onWay : ((s.cut p q).pointAt crest.1 crest.2).Above
      (Point.between p q (crest.1 / p.planarDistance q)) := by
    have length : 0 < (s.cut p q).length := long
    rw [Cut.pointAt, if_pos length]
    exact ⟨rfl, rfl⟩
  have off : ((s.cut p q).pointAt crest.1 crest.2).z
      ≠ p.z + crest.1 / p.planarDistance q * (q.z - p.z) := by
    have above := screens.2
    rw [s.lineElevation_eq p q long, mul_div_assoc'] at above
    refine ne_of_gt ?_
    rw [div_mul_eq_mul_div]
    exact (lt_add_of_pos_right _ Scalar.eps_pos).trans above
  have longer := Point.distance_lt_of_off_line long onWay off
  rw [Cut.delta_overCrest]
  exact sub_pos.2 longer

end Scene

/-! ## Losses over edges -/

namespace Calculator

/-- A path over a detour that counts loses over edges in every band. -/
theorem edges_pos {c : Calculator ℝ} {p : Path ℝ} {d : Detour ℝ} (sound : c.Sound)
    (scored : p.scoredDetour = some d) (longer : 0 < d.delta) :
    ∀ b ∈ (c.losses p).perBand, 0 < b.edges := by
  intro b band
  have edge : b.edges ∈ c.edgeLosses Detour.loss (some d) := by
    rw [← scored, ← (edges_perBand sound p).1]
    exact List.mem_map_of_mem band
  obtain ⟨wavelength, isWavelength, loss⟩ := List.mem_map.1 edge
  rw [← loss]
  exact edgeLoss_pos longer d.spread (sound.positive wavelength isWavelength)

end Calculator

/-! ## The direct path -/

/-- The first path is the direct one.  If it is screened, something obstructs the line of
sight.  If something does, and no part inside a building touches an end of the segment,
the direct path is screened over a detour, and it loses over the edge in every band. -/
theorem Scene.screened_of_obstructed (s : Scene ℝ) {source receiver : Point ℝ}
    {options : PathOptions ℝ} {paths : List (Path ℝ)}
    (found : s.findPaths source receiver options = .ok paths) :
    ∃ direct rest, paths = direct :: rest ∧ direct.kind = .direct ∧
      (∀ d, direct.detour = some d → s.obstructed source receiver = true) ∧
      (s.obstructed source receiver = true →
        (∀ building ∈ s.buildings, ∀ part ∈ building.outline.insideParts source receiver,
          Scalar.eps < part.1 ∧ part.2 < 1 - Scalar.eps) →
        ∃ d, direct.detour = some d ∧ 0 < d.delta ∧
          ∀ c : Calculator ℝ, c.Built → ∃ losses, c.score direct = .ok losses ∧
            losses.perBand.length = c.bands.size ∧ ∀ b ∈ losses.perBand, 0 < b.edges) := by
  obtain ⟨_, -, found⟩ := bind_eq_ok_iff.1 found
  obtain rfl : _ = paths := by simpa [pure, Except.pure] using found
  refine ⟨_, _, rfl, rfl, ?_, ?_⟩
  · intro d screened
    obtain ⟨⟨crest, screens, -⟩, -⟩ := Cut.screening_spec screened
    exact (obstructed_of_crest screens).2
  · intro obstructed clear
    obtain ⟨crest, screens⟩ := exists_crest_of_obstructed obstructed clear
    obtain ⟨d, screened⟩ : ∃ d, (s.cut source receiver).screening (source.distance receiver)
        = some d := Option.ne_none_iff_exists'.1 fun none =>
      Cut.screening_eq_none_iff.1 none crest screens
    obtain ⟨-, greatest⟩ := Cut.screening_spec screened
    have longer := (delta_pos_of_screens screens).trans_le (greatest crest screens)
    refine ⟨d, screened, longer, fun c built => ?_⟩
    have length : 0 ≤ (s.directPath source receiver options.sourceFactor).length :=
      source.distance_nonneg receiver
    have bare : (s.directPath source receiver options.sourceFactor).absorptions = [] :=
      absorption?_bentEvents source receiver []
    have reflecting : ∀ a ∈ (s.directPath source receiver options.sourceFactor).absorptions,
        0 ≤ a ∧ a < 1 := by simp [bare]
    exact ⟨_, Calculator.score_eq length reflecting,
      (Calculator.losses_spec built.sound length reflecting).2.1,
      Calculator.edges_pos built.sound screened longer⟩

theorem block_obstructed : blockDraft.finish.obstructed ⟨0, 0, 1⟩ ⟨0, 30, 4⟩ = true := by
  have holds : blockOutline.contains (Point.between ⟨0, 0, 1⟩ ⟨0, 30, 4⟩ 0.5) = true := by
    have middle : Point.between (⟨0, 0, 1⟩ : Point ℝ) ⟨0, 30, 4⟩ 0.5 = ⟨0, 15, 2.5⟩ := by
      norm_num [Point.between]
    rw [middle, block_contains]
    norm_num
  have found : 0 ∈ blockDraft.finish.buildingGrid.along ⟨0, 0, 1⟩ ⟨0, 30, 4⟩ :=
    Draft.mem_along_of_meets blockDraft_made blockDraft_holesInBox
      ⟨_, rfl, 0.5, by norm_num, by norm_num, holds⟩
  have low : min ((1 : ℝ) + 1 / 3 * (4 - 1)) (1 + 2 / 3 * (4 - 1)) < 10.0 - Scalar.eps := by
    norm_num [Scalar.eps_eq]
  refine (Scene.obstructed_iff _ _ _).2 (.inl ⟨0, found, ?_⟩)
  simp only [Scene.blocks, Draft.finish, blockDraft, List.getElem?_toArray, List.map_toArray,
    List.getElem?_cons_zero, List.map_cons, block_outline, block_insideParts]
  simp only [List.any_cons, Bool.or_eq_true, decide_eq_true_eq]
  exact .inl low

/-- The direct path through the block is screened and loses over its edge, in each of the
eight octaves of the standard atmosphere. -/
theorem block_screens :
    ∃ direct rest, blockDraft.finish.findPaths ⟨0, 0, 1⟩ ⟨0, 30, 4⟩ .standard
        = .ok (direct :: rest) ∧
      (∃ d, direct.detour = some d ∧ 0 < d.delta) ∧
      ∃ c losses, Calculator.Built c ∧ c.score direct = .ok losses ∧
        losses.perBand.length = 8 ∧ ∀ b ∈ losses.perBand, 0 < b.edges := by
  have apart : (Scalar.eps : ℝ) ≤ Point.distance ⟨0, 0, 1⟩ ⟨0, 30, 4⟩ := by
    rw [Point.distance_eq, Scalar.eps_eq]
    exact Real.le_sqrt_of_sq_le (by norm_num)
  have accepted : (PathOptions.standard : PathOptions ℝ).check ⟨0, 0, 1⟩ ⟨0, 30, 4⟩ = .ok () := by
    simp [PathOptions.check, PathOptions.standard, require, Point.isFinite, apart, bind,
      Except.bind, pure, Except.pure]
  have found : blockDraft.finish.findPaths ⟨0, 0, 1⟩ ⟨0, 30, 4⟩ .standard
      = .ok (blockDraft.finish.paths ⟨0, 0, 1⟩ ⟨0, 30, 4⟩ .standard) :=
    bind_eq_ok_iff.2 ⟨(), accepted, rfl⟩
  have clear : ∀ building ∈ blockDraft.finish.buildings,
      ∀ part ∈ building.outline.insideParts ⟨0, 0, 1⟩ ⟨0, 30, 4⟩,
        Scalar.eps < part.1 ∧ part.2 < 1 - Scalar.eps := by
    simp only [Draft.finish, blockDraft, List.mem_toArray, List.mem_singleton, forall_eq,
      block_outline, block_insideParts]
    norm_num [Scalar.eps_eq]
  obtain ⟨direct, rest, paths, -, -, screened⟩ :=
    blockDraft.finish.screened_of_obstructed found
  obtain ⟨d, detour, longer, scored⟩ := screened block_obstructed clear
  obtain ⟨c, built, octaves⟩ := Calculator.exists_built .octave
  obtain ⟨losses, score, size, edges⟩ := scored c built
  exact ⟨direct, rest, by rw [found, paths], ⟨d, detour, longer⟩, c, losses, built, score,
    by rw [size, octaves, BandSet.size], edges⟩

end RoadNoise
