/-
# RoadNoise.Proofs.Underfoot -- the ground under a path

What a cut says of the ground covers it from end to end (`Scene.total_spans`), and its factors
are those of areas or the default, which accepted edits keep between zero and one, or zero
inside buildings (`Scene.spans_sound`).  The ground under a way is laid cut by cut, leg after
leg, so it is as long as the way on the map (`Scene.length_footing`).

The way of a path is that of its events for all but the path over the top, which stands on the
ground of the direct line: its edges lie in the plane of that line one after the other, so on
the map it is no longer (`Cut.planarLength_over`).  The mean factors of the three regions are
weighted means of factors between zero and one, or set for the source (`Footing.Sound.factors`).
-/
import RoadNoise.Proofs.OverTop
import RoadNoise.Proofs.Reciprocity
import RoadNoise.Proofs.Spans

set_option autoImplicit false

namespace RoadNoise

/-- From zero to one. -/
def Fraction (x : ℝ) : Prop := 0 ≤ x ∧ x ≤ 1

/-! ## Factors of the ground -/

/-- A span of the ground that counts, with a sound factor. -/
structure Span.Sound (span : Span ℝ) : Prop where
  long : 0 < span.length
  factor : Fraction span.factor

namespace Draft

variable {d : Draft ℝ}

/-- The ground absorbs as its areas do, or by default. -/
theorem Sound.groundFactor (sound : d.Sound) (p : Point ℝ) :
    Fraction (d.finish.groundFactor p) := by
  rw [Scene.groundFactor_eq]
  cases covering : (d.finish.areaGrid.atPoint p).reverse.findSome? (d.finish.factorIn p) with
  | none => exact sound.ground
  | some g =>
      obtain ⟨i, -, found⟩ := List.exists_of_findSome?_eq_some covering
      unfold Scene.factorIn at found
      split at found
      · rename_i a entry
        split_ifs at found
        obtain rfl := Option.some.inj found
        exact sound.factor a (Array.mem_of_getElem? entry)
      · simp at found

end Draft

namespace Cut

/-- Spans have the factor of the start or of a mark before them, or are hard. -/
theorem factor_spansFrom {length g last : ℝ} {inside : Nat} {marks : List (Mark ℝ)}
    (start : Fraction g)
    (factors : ∀ m ∈ marks, ∀ g, m.kind = .factor g → Fraction g) :
    ∀ span ∈ spansFrom length g inside last marks, Fraction span.factor := by
  have hard : ∀ {g : ℝ}, Fraction g → ∀ inside, Fraction (hardened g inside) := by
    intro g sound inside
    unfold hardened
    split_ifs
    · exact ⟨le_rfl, zero_le_one⟩
    · exact sound
  induction marks generalizing g inside last with
  | nil =>
      rw [spansFrom_nil]
      split_ifs
      · simpa using hard start inside
      · simp
  | cons m marks ih =>
      have later := fun m' entry => factors m' (List.mem_cons_of_mem m entry)
      have next : Fraction (m.factorAfter g) := by
        unfold Mark.factorAfter
        split
        · exact factors m List.mem_cons_self _ ‹_›
        · exact start
      rw [spansFrom_cons]
      split_ifs
      · exact List.forall_mem_cons.2 ⟨hard start inside, ih next later⟩
      · exact ih next later

end Cut

namespace Scene

variable {s : Scene ℝ} {p q : Point ℝ}

/-- What a mark says of the ground is its factor at some place. -/
theorem exists_place_of_mem_cut {m : Mark ℝ} (isMark : m ∈ (s.cut p q).marks) {g : ℝ}
    (kind : m.kind = .factor g) : ∃ place, s.groundFactor place = g := by
  have listed := (s.perm_cut p q).mem_iff.1 isMark
  rw [List.mem_append, List.mem_append] at listed
  rcases listed with (ground | wall) | factor
  · simp [isGround_of_mem_groundMarks ground] at kind
  · obtain ⟨found, -, isMark⟩ := List.mem_flatMap.1 wall
    obtain ⟨entering, isWall⟩ := exists_of_mem_wallMarks isMark
    simp [isWall] at kind
  · obtain ⟨place, isFactor⟩ := exists_of_mem_factorMarks factor
    exact ⟨place, MarkKind.factor.inj (isFactor.symm.trans kind)⟩

theorem exists_place_of_startFactor (s : Scene ℝ) (p q : Point ℝ) :
    ∃ place, s.groundFactor place = (s.cut p q).startFactor := by
  unfold cut
  dsimp only
  split
  · exact ⟨_, rfl⟩
  · exact ⟨_, rfl⟩

/-- The cut covers its length with spans. -/
theorem total_spans (s : Scene ℝ) (p q : Point ℝ) :
    (∀ span ∈ (s.cut p q).spans, 0 < span.length) ∧
      ((s.cut p q).spans.map Span.length).sum = p.planarDistance q := by
  have covers := Cut.lengths_spansFrom (s.cut p q).startFactor (s.cut p q).startInside
    (p.planarDistance_nonneg q) fun m isMark => distance_le_of_mem_cut (s := s) isMark
  rw [sub_zero] at covers
  exact covers

theorem spans_sound (sound : ∀ place, Fraction (s.groundFactor place)) :
    ∀ span ∈ (s.cut p q).spans, span.Sound := by
  intro span entry
  refine ⟨(s.total_spans p q).1 span entry, Cut.factor_spansFrom ?_ ?_ span entry⟩
  · obtain ⟨place, start⟩ := s.exists_place_of_startFactor p q
    exact start ▸ sound place
  · intro m isMark g kind
    obtain ⟨place, factor⟩ := exists_place_of_mem_cut isMark kind
    exact factor ▸ sound place

/-- The ground under a way is as long as the way on the map. -/
theorem length_footing (s : Scene ℝ) (way : List (Point ℝ)) (sourceFactor : Option ℝ) :
    (s.footing way sourceFactor).length = Polyline.planarLength way := by
  rw [Footing.length, footing, Polyline.planarLength, Scalar.sum_eq, Scalar.sum_eq]
  dsimp only
  induction Sequence.adjacent way with
  | nil => rfl
  | cons leg legs ih =>
      rw [List.flatMap_cons, List.map_append, List.sum_append, ih, List.map_cons, List.sum_cons,
        (s.total_spans leg.1 leg.2).2]

end Scene

/-! ## Regions -/

theorem coverage_bounds {spans : List (Span ℝ)} (sound : ∀ span ∈ spans, span.Sound)
    {weighted covered : ℝ} (lo hi start : ℝ) (least : 0 ≤ weighted) (most : weighted ≤ covered) :
    0 ≤ (coverage lo hi start weighted covered spans).1 ∧
      (coverage lo hi start weighted covered spans).1
        ≤ (coverage lo hi start weighted covered spans).2 := by
  induction spans generalizing start weighted covered with
  | nil => exact ⟨least, most⟩
  | cons span rest ih =>
      obtain ⟨⟨-, factor⟩, later⟩ := List.forall_mem_cons.1 sound
      rw [coverage]
      split_ifs with meets
      · have share := mul_le_of_le_one_right meets.le factor.2
        have gain := mul_nonneg meets.le factor.1
        exact ih later _ (add_nonneg least gain) (add_le_add most share)
      · exact ih later _ least most

/-- The mean factor of some spans is between zero and one. -/
theorem fraction_meanFactor? {spans : List (Span ℝ)} (sound : ∀ span ∈ spans, span.Sound)
    {lo hi mean : ℝ} (isMean : meanFactor? spans lo hi = some mean) : Fraction mean := by
  obtain ⟨least, most⟩ := coverage_bounds sound lo hi 0 le_rfl le_rfl
  unfold meanFactor? at isMean
  dsimp only at isMean
  split_ifs at isMean with empty covered
  obtain rfl := Option.some.inj isMean
  exact ⟨div_nonneg least covered.le, div_le_one_of_le₀ most covered.le⟩

namespace Footing

/-- The ground under a path as it should be. -/
structure Sound (f : Footing ℝ) : Prop where
  spans : ∀ span ∈ f.spans, span.Sound
  sourceHeight : 0 ≤ f.sourceHeight
  receiverHeight : 0 ≤ f.receiverHeight
  sourceFactor : ∀ g ∈ f.sourceFactor, Fraction g

theorem Sound.factors {f : Footing ℝ} (sound : f.Sound) :
    Fraction f.factors.1 ∧ Fraction f.factors.2.1 ∧ Fraction f.factors.2.2 := by
  have mean (lo hi : ℝ) :
      Fraction (((meanFactor? f.spans lo hi).or (meanFactor? f.spans 0 f.length)).getD 0) := by
    cases own : meanFactor? f.spans lo hi with
    | some g => exact fraction_meanFactor? sound.spans own
    | none =>
        cases all : meanFactor? f.spans 0 f.length with
        | some g => exact fraction_meanFactor? sound.spans all
        | none => exact ⟨le_rfl, zero_le_one⟩
  refine ⟨?_, mean _ _, mean _ _⟩
  cases set : f.sourceFactor with
  | some g => simpa [Footing.factors, set] using sound.sourceFactor g set
  | none => simpa [Footing.factors, set] using mean _ _

end Footing

/-! ## Paths -/

namespace Cut

theorem planarLength_map_pointAt {c : Cut ℝ} (long : 0 < c.length) (e : ℝ × ℝ) (l : List (ℝ × ℝ))
    (onwards : (e :: l).Pairwise fun a b => a.1 ≤ b.1) :
    Polyline.planarLength ((e :: l).map fun e => c.pointAt e.1 e.2)
      = (l.getLastD e).1 - e.1 := by
  induction l generalizing e with
  | nil => simp
  | cons e' l ih =>
      obtain ⟨after, later⟩ := List.pairwise_cons.1 onwards
      have rest := ih e' later
      rw [List.map_cons] at rest ⊢
      rw [List.map_cons, Polyline.planarLength_cons_cons, rest, List.getLastD_cons,
        planarDistance_pointAt long (after e' (by simp))]
      ring

/-- A way over edges in the plane of a cut, one after the other, is as long as the cut on the
map. -/
theorem planarLength_over {c : Cut ℝ} {edges : List (ℝ × ℝ)}
    (onwards : (0 :: edges.map Prod.fst ++ [c.length]).Pairwise (· < ·)) :
    Polyline.planarLength (c.p1 :: edges.map (fun e => c.pointAt e.1 e.2) ++ [c.p2])
      = c.length := by
  have long : 0 < c.length := (List.pairwise_cons.1 onwards).1 c.length (by simp)
  have distances : ((0, c.p1.z) :: (edges ++ [(c.length, c.p2.z)])).map Prod.fst
      = 0 :: edges.map Prod.fst ++ [c.length] := by simp
  rw [← distances, List.pairwise_map] at onwards
  have whole := planarLength_map_pointAt long _ _ (onwards.imp le_of_lt)
  rw [List.getLastD_concat, sub_zero] at whole
  simpa [pointAt_zero, pointAt_length long] using whole

end Cut

namespace Scene

variable {s : Scene ℝ} {source receiver : Point ℝ} {options : PathOptions ℝ} {path : Path ℝ}

/-- Every path has the ground under a way that is as long on the map as its own. -/
theorem exists_footing_of_mem_paths (isPath : path ∈ s.paths source receiver options) :
    ∃ way, path.footing = s.footing way options.sourceFactor ∧
      Polyline.planarLength way = Polyline.planarLength path.way := by
  rcases cases_of_mem_paths isPath with rfl | top | around | reflected
  · exact ⟨_, (s.leads_directPath source receiver options.sourceFactor).2.2, rfl⟩
  · obtain ⟨-, bends⟩ := bendsOver_of_topPath top
    obtain ⟨-, rfl⟩ := topPath_eq_some_iff.1 top
    refine ⟨[source, receiver], rfl, ?_⟩
    rw [Path.way, bends.events, position_bentEvents, Cut.planarLength_over bends.onwards,
      Polyline.planarLength_cons_cons, Polyline.planarLength_singleton, add_zero]
    rfl
  · exact ⟨_, (leads_of_mem_aroundPaths around).2.2, rfl⟩
  · exact ⟨_, (leads_of_mem_reflectedPaths reflected).2.2, rfl⟩

theorem footing_sound (sound : ∀ place, Fraction (s.groundFactor place)) (way : List (Point ℝ))
    {sourceFactor : Option ℝ} (set : ∀ g ∈ sourceFactor, Fraction g) :
    (s.footing way sourceFactor).Sound where
  spans span entry := by
    obtain ⟨leg, -, entry⟩ := List.mem_flatMap.1 entry
    exact spans_sound sound span entry
  sourceHeight := by
    cases start : way.head? <;> simp [footing, heightAbove, start]
  receiverHeight := by
    cases stop : way.getLast? <;> simp [footing, heightAbove, stop]
  sourceFactor := set

end Scene

/-- The ground under a path is as long as the way through its events on the map, every span of
it has a length and a factor between zero and one, no end is below the ground, and the mean
factors of the three regions are between zero and one. -/
theorem ground_underfoot {d : Draft ℝ} (made : d.Made) {source receiver : Point ℝ}
    {options : PathOptions ℝ} {paths : List (Path ℝ)}
    (found : d.finish.findPaths source receiver options = .ok paths) {path : Path ℝ}
    (isPath : path ∈ paths) :
    path.footing.length = Polyline.planarLength path.way ∧
    (∀ span ∈ path.footing.spans, 0 < span.length ∧ Fraction span.factor) ∧
    0 ≤ path.footing.sourceHeight ∧ 0 ≤ path.footing.receiverHeight ∧
    Fraction path.footing.factors.1 ∧ Fraction path.footing.factors.2.1 ∧
      Fraction path.footing.factors.2.2 := by
  obtain ⟨⟨-, set⟩, rfl⟩ := Scene.findPaths_eq_ok_iff.1 found
  obtain ⟨way, footing, same⟩ := Scene.exists_footing_of_mem_paths isPath
  have sound := Scene.footing_sound made.sound.groundFactor way set
  rw [footing, Scene.length_footing]
  exact ⟨same, fun span entry => ⟨(sound.spans span entry).long, (sound.spans span entry).factor⟩,
    sound.sourceHeight, sound.receiverHeight, sound.factors⟩

/-- The ground under the path over the top of a block. -/
theorem block_underfoot :
    blockDraft.Made ∧
    ∃ paths, blockDraft.finish.findPaths ⟨0, 0, 1⟩ ⟨0, 30, 4⟩ .standard = .ok paths ∧
      ∃ path ∈ paths, path.kind = .top ∧
        path.footing.length = Polyline.planarLength path.way ∧
        (∀ span ∈ path.footing.spans, 0 < span.length ∧ Fraction span.factor) ∧
        0 ≤ path.footing.sourceHeight ∧ 0 ≤ path.footing.receiverHeight ∧
        Fraction path.footing.factors.1 ∧ Fraction path.footing.factors.2.1 ∧
          Fraction path.footing.factors.2.2 := by
  obtain ⟨path, isPath, top⟩ := exists_block_top
  exact ⟨blockDraft_made, _, block_found, path, isPath, top,
    ground_underfoot blockDraft_made block_found isPath⟩

end RoadNoise
