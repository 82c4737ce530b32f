/-
# RoadNoise.Proofs.Higher -- higher roofs screen more

A building that is raised keeps its walls and has higher crests over them.  The way over
a crest is a convex function of its elevation and shortest on the straight line, so above
the line it only grows with the crest (`Point.detour_mono`).  Every crest that screens the
direct line has one over it that still does after the buildings are raised, so the detour
that screens it most is no shorter (`Scene.Raised.screening_mono`), and neither is the loss
over its edge.  All else that the direct path loses depends on its ends and on the ground,
which do not depend on roofs.
-/
import RoadNoise.Proofs.Reroofed
import RoadNoise.Proofs.Screening

set_option autoImplicit false

namespace RoadNoise

/-! ## Buildings that are raised -/

namespace Height

/-- The same kind of height, not lower. -/
def Raised : Height ℝ → Height ℝ → Prop
  | .relative h, .relative h' => h ≤ h'
  | .absolute z, .absolute z' => z ≤ z'
  | _, _ => False

theorem Raised.refl (h : Height ℝ) : h.Raised h := by
  cases h <;> exact le_rfl

/-- What is raised is accepted if it was before. -/
theorem Raised.check {h h' : Height ℝ} (raised : h.Raised h') (accepted : h.check = .ok ()) :
    h'.check = .ok () := by
  cases h with
  | relative h =>
      cases h' with
      | relative h' =>
          have positive : 0 < h := by simpa [Rule.admits] using demand_eq_ok_iff.1 accepted
          have higher : h ≤ h' := raised
          refine demand_eq_ok_iff.2 ?_
          simpa [Rule.admits] using positive.trans_le higher
      | absolute z => exact raised.elim
  | absolute z =>
      cases h' with
      | relative h' => exact raised.elim
      | absolute z' => exact require_eq_ok_iff.2 rfl

end Height

/-- The same building, not lower. -/
structure Building.Raised (b b' : Building ℝ) : Prop where
  outline : b'.outline = b.outline
  height : b.height.Raised b'.height
  absorption : b'.absorption = b.absorption

theorem Building.Raised.refl (b : Building ℝ) : b.Raised b := ⟨rfl, .refl _, rfl⟩

/-- Over the same ground its roof is not lower either. -/
theorem Building.Raised.roof_le {b b' : Building ℝ} (raised : b.Raised b') (ground : ℝ → ℝ → ℝ) :
    b.roof ground ≤ b'.roof ground := by
  obtain ⟨outline, height, absorption⟩ := b
  obtain ⟨outline', height', absorption'⟩ := b'
  obtain ⟨rfl, higher, -⟩ := raised
  cases height with
  | relative h =>
      cases height' with
      | relative h' => exact add_le_add_right higher _
      | absolute z => exact higher.elim
  | absolute z =>
      cases height' with
      | relative h => exact higher.elim
      | absolute z' => exact higher

/-- The same edit, but that a building may be raised. -/
inductive Edit.Raised : Edit ℝ → Edit ℝ → Prop
  | building {b b' : Building ℝ} (raised : b.Raised b') : Raised (.building b) (.building b')
  | same (e : Edit ℝ) : Raised e e

namespace Draft

/-- The same draft, but that its buildings may be raised. -/
structure Raised (d d' : Draft ℝ) : Prop where
  buildings : List.Forall₂ Building.Raised d.buildings.toList d'.buildings.toList
  areas : d'.areas = d.areas
  topography : d'.topography = d.topography
  defaults : d'.defaults = d.defaults

variable {d d' next : Draft ℝ}

theorem Raised.building (raised : d.Raised d') {b b' : Building ℝ} (higher : b.Raised b') :
    (d.apply (.building b)).Raised (d'.apply (.building b')) :=
  { raised with
    buildings := by
      simp only [apply, Array.toList_push]
      exact List.rel_append raised.buildings (.cons higher .nil) }

/-- One step: an edit that is raised is accepted as well, and what comes out is raised. -/
theorem Raised.edit (raised : d.Raised d') {e e' : Edit ℝ} (higher : e.Raised e')
    (accepted : d.edit e = .ok next) : ∃ next', d'.edit e' = .ok next' ∧ next.Raised next' := by
  obtain ⟨checked, rfl⟩ := edit_eq_ok_iff.1 accepted
  refine ⟨d'.apply e', edit_eq_ok_iff.2 ⟨?_, rfl⟩, ?_⟩
  · cases higher with
    | same e => exact checked
    | building higher =>
        rename_i b b'
        obtain ⟨height, absorption⟩ := check_bind_eq_ok_iff.1 checked
        refine check_bind_eq_ok_iff.2 ⟨higher.height.check height, ?_⟩
        rw [higher.absorption]
        exact absorption
  · cases higher with
    | building higher => exact raised.building higher
    | same e =>
        cases e with
        | building b => exact raised.building (.refl b)
        | defaultGround factor => exact { raised with defaults := by simp [apply, raised.defaults] }
        | defaultElevation z => exact { raised with defaults := by simp [apply, raised.defaults] }
        | defaultWall absorption => exact { raised with defaults := by simp [apply, raised.defaults] }
        | area a => exact { raised with areas := by simp [apply, raised.areas] }
        | topography line => exact { raised with topography := by simp [apply, raised.topography] }

/-- A whole run of edits, one by one the same or raised. -/
theorem Raised.edits (raised : d.Raised d') {edits edits' : List (Edit ℝ)}
    (higher : List.Forall₂ Edit.Raised edits edits') (made : edits.foldlM Draft.edit d = .ok next) :
    ∃ next', edits'.foldlM Draft.edit d' = .ok next' ∧ next.Raised next' := by
  induction higher generalizing d d' with
  | nil =>
      obtain rfl : d = next := Except.ok.inj made
      exact ⟨d', rfl, raised⟩
  | cons first rest ih =>
      rw [List.foldlM_cons] at made
      obtain ⟨middle, accepted, made⟩ := bind_eq_ok_iff.1 made
      obtain ⟨middle', accepted', raised⟩ := raised.edit first accepted
      obtain ⟨next', made', raised⟩ := ih raised made
      refine ⟨next', ?_, raised⟩
      rw [List.foldlM_cons]
      exact bind_eq_ok_iff.2 ⟨middle', accepted', made'⟩

end Draft

/-- The second scene is the first one with buildings that may be raised. -/
structure Scene.Raised (s s' : Scene ℝ) : Prop extends s.Reroofed s' where
  higher : ∀ (b : Nat) (roof : ℝ), s.roofs[b]? = some roof → roof ≤ s'.roofOf b

theorem Draft.Raised.finish {d d' : Draft ℝ} (raised : d.Raised d') :
    d.finish.Raised d'.finish := by
  have outlines : d'.buildings.map (·.outline) = d.buildings.map (·.outline) := by
    refine Array.toList_inj.1 ?_
    rw [Array.toList_map, Array.toList_map, ← List.forall₂_eq_eq_eq, List.forall₂_map_left_iff,
      List.forall₂_map_right_iff]
    exact raised.buildings.flip.imp fun _ _ higher => higher.outline
  have boxes : d'.buildings.toList.map (·.outline.box) = d.buildings.toList.map (·.outline.box) := by
    have drawn := congrArg (fun outlines => outlines.toList.map Polygon.box) outlines
    simpa [Function.comp_def] using drawn
  have roofs : List.Forall₂ (· ≤ ·) d.finish.roofs.toList d'.finish.roofs.toList := by
    simp only [Draft.finish, Array.toList_map, List.forall₂_map_left_iff,
      List.forall₂_map_right_iff, raised.topography, raised.defaults]
    exact raised.buildings.imp fun _ _ higher => higher.roof_le _
  refine
    { outlines := outlines
      roofs := by simpa using roofs.length_eq.symm
      buildingGrid := congrArg Grid.ofBoxes boxes
      areas := raised.areas
      areaGrid := by simp only [Draft.finish, raised.areas]
      relief := by simp only [Draft.finish, raised.topography]
      defaults := raised.defaults
      higher := ?_ }
  intro b roof isRoof
  rw [← Array.getElem?_toList] at isRoof
  obtain ⟨present, rfl⟩ := List.getElem?_eq_some_iff.1 isRoof
  have present' : b < d'.finish.roofs.toList.length := roofs.length_eq ▸ present
  rw [Scene.roofOf, ← Array.getElem?_toList, List.getElem?_eq_getElem present', Option.getD_some]
  exact roofs.get present present'

/-! ## Crests that are raised -/

theorem Point.between_mem_segment {p q : Point ℝ} {t : ℝ} (start : 0 ≤ t) (stop : t ≤ 1) :
    (between p q t).toSpace ∈ segment ℝ p.toSpace q.toSpace := by
  rw [segment_eq_image']
  refine ⟨t, ⟨start, stop⟩, ?_⟩
  ext i
  fin_cases i <;> simp [between, toSpace, mul_comm]

/-- The way over a place on or above the straight line grows with its elevation. -/
theorem Point.detour_mono {p q : Point ℝ} {t z z' : ℝ} (start : 0 ≤ t) (stop : t ≤ 1)
    (above : p.z + t * (q.z - p.z) ≤ z) (higher : z ≤ z') :
    p.distance ((between p q t).raisedTo z) + ((between p q t).raisedTo z).distance q
      ≤ p.distance ((between p q t).raisedTo z') + ((between p q t).raisedTo z').distance q := by
  have convex := (convexOn_univ_dist p.toSpace).add (convexOn_univ_dist q.toSpace)
  obtain ⟨r, ⟨least, most⟩, place⟩ : ∃ r ∈ Set.Icc (0 : ℝ) 1,
      (p.z + t * (q.z - p.z)) + r * (z' - (p.z + t * (q.z - p.z))) = z := by
    have inside : z ∈ segment ℝ (p.z + t * (q.z - p.z)) z' := by
      rw [segment_eq_Icc (above.trans higher)]
      exact ⟨above, higher⟩
    rw [segment_eq_image'] at inside
    exact inside
  -- the lower place is on the way from the line to the higher one, and the line is no detour
  have onWay : between (between p q t) ((between p q t).raisedTo z') r
      = (between p q t).raisedTo z := by
    ext
    · simp [between, raisedTo]
    · simp [between, raisedTo]
    · rw [← place]
      simp only [between, raisedTo]
      ring
  have inside := between_mem_segment (p := between p q t)
    (q := (between p q t).raisedTo z') least most
  rw [onWay] at inside
  have straight := dist_add_dist_of_mem_segment (between_mem_segment (p := p) (q := q) start stop)
  have triangle := dist_triangle p.toSpace ((between p q t).raisedTo z').toSpace q.toSpace
  have greatest := convex.le_max_of_mem_segment (Set.mem_univ _) (Set.mem_univ _) inside
  simp only [Pi.add_apply, dist_comm _ p.toSpace, straight] at greatest
  rw [max_eq_right triangle] at greatest
  simpa only [distance_eq_dist] using greatest

/-- Metres that a way over edges is longer than the direct line; zero for no edge. -/
def Detour.excess : Option (Detour ℝ) → ℝ
  | some d => d.delta
  | none => 0

namespace Scene

variable {s s' : Scene ℝ} {p q : Point ℝ}

/-- A crest over a cut stands over a place of the segment. -/
theorem between_of_mem_crests {crest : ℝ × ℝ} (isCrest : crest ∈ (s.cut p q).crests) :
    0 ≤ crest.1 ∧ crest.1 ≤ p.planarDistance q := by
  have long := p.planarDistance_nonneg q
  have positive := Scalar.eps_pos
  obtain ⟨x, z⟩ := crest
  rcases mem_crests_iff.1 isCrest with
    ⟨b, -, t, ⟨building, -, -, part, inside, place⟩, rfl⟩ | ⟨m, -, inner, rfl, -⟩
  · obtain ⟨start, stop⟩ := Polygon.reaches_of_mem_insideParts inside
    have bounds : 0 ≤ t ∧ t ≤ 1 := by
      rcases place with ⟨rfl, before⟩ | ⟨rfl, after⟩
      · exact ⟨by linarith, start⟩
      · exact ⟨stop, by linarith⟩
    exact ⟨mul_nonneg bounds.1 long, mul_le_of_le_one_left long bounds.2⟩
  · obtain ⟨start, stop⟩ := (s.isInner_iff p q).1 inner
    exact ⟨by dsimp only; linarith, by dsimp only; linarith⟩

/-- The detour over a crest that stands above the line grows with the crest. -/
theorem delta_overCrest_mono {crest : ℝ × ℝ} (screens : (s.cut p q).Screens crest) {z : ℝ}
    (higher : crest.2 ≤ z) (directLength : ℝ) :
    ((s.cut p q).overCrest crest directLength).delta
      ≤ ((s.cut p q).overCrest (crest.1, z) directLength).delta := by
  obtain ⟨long, -⟩ := obstructed_of_crest screens
  obtain ⟨start, stop⟩ := between_of_mem_crests screens.1
  have above := screens.2
  rw [s.lineElevation_eq p q long, mul_div_assoc', ← div_mul_eq_mul_div] at above
  have onOrAbove : p.z + crest.1 / p.planarDistance q * (q.z - p.z) ≤ crest.2 :=
    ((lt_add_of_pos_right _ Scalar.eps_pos).trans above).le
  have longer := Point.detour_mono (div_nonneg start long.le) ((div_le_one long).2 stop)
    onOrAbove higher
  have place : ∀ z, (s.cut p q).pointAt crest.1 z
      = (Point.between p q (crest.1 / p.planarDistance q)).raisedTo z := by
    intro z
    have length : 0 < (s.cut p q).length := long
    rw [Cut.pointAt, if_pos length]
    rfl
  rw [Cut.delta_overCrest, Cut.delta_overCrest, place, place]
  exact sub_le_sub_right longer _

theorem excess_screening_pos {crest : ℝ × ℝ} (screens : (s.cut p q).Screens crest) :
    0 < Detour.excess ((s.cut p q).screening (p.distance q)) := by
  cases screening : (s.cut p q).screening (p.distance q) with
  | none => exact absurd screens (Cut.screening_eq_none_iff.1 screening crest)
  | some detour =>
      exact (delta_pos_of_screens screens).trans_le ((Cut.screening_spec screening).2 crest screens)

theorem excess_screening_nonneg :
    0 ≤ Detour.excess ((s.cut p q).screening (p.distance q)) := by
  by_cases screens : ∃ crest, (s.cut p q).Screens crest
  · obtain ⟨crest, screens⟩ := screens
    exact (excess_screening_pos screens).le
  · rw [Cut.screening_eq_none_iff.2 (not_exists.1 screens)]
    exact le_rfl

namespace Raised

variable (raised : s.Raised s')

include raised

/-- Over every crest there is one of the scene whose buildings are raised. -/
theorem exists_crest {x z : ℝ} (isCrest : (x, z) ∈ (s.cut p q).crests) :
    ∃ z', z ≤ z' ∧ (x, z') ∈ (s'.cut p q).crests := by
  rcases mem_crests_iff.1 isCrest with
    ⟨b, found, t, ⟨building, isBuilding, isRoof, part, inside, place⟩, distance⟩ |
    ⟨m, ground, inner, distance, elevation⟩
  · obtain ⟨other, isOther, drawn⟩ : ∃ other, s'.buildings[b]? = some other ∧
        other.outline = building.outline := by
      simpa [isBuilding] using raised.getElem?_outline b
    refine ⟨s'.roofOf b, raised.higher b z isRoof, mem_crests_iff.2 (.inl ⟨b, ?_, t,
      ⟨other, isOther, raised.getElem?_roofs isRoof, part, ?_, place⟩, distance⟩)⟩
    · rw [raised.buildingGrid]
      exact found
    · rw [drawn]
      exact inside
  · refine ⟨z, le_rfl, mem_crests_iff.2 (.inr ⟨m, ?_, inner, distance, elevation⟩)⟩
    rw [raised.groundMarks_eq]
    exact ground

theorem exists_screens {crest : ℝ × ℝ} (screens : (s.cut p q).Screens crest) :
    ∃ z', crest.2 ≤ z' ∧ (s'.cut p q).Screens (crest.1, z') := by
  obtain ⟨z', higher, isCrest⟩ := raised.exists_crest screens.1
  exact ⟨z', higher, isCrest, screens.2.trans_le higher⟩

/-- What screens the direct line screens it at least as much with buildings raised. -/
theorem screening_mono (p q : Point ℝ) :
    Detour.excess ((s.cut p q).screening (p.distance q))
      ≤ Detour.excess ((s'.cut p q).screening (p.distance q)) := by
  cases before : (s.cut p q).screening (p.distance q) with
  | none => exact excess_screening_nonneg
  | some detour =>
      obtain ⟨⟨crest, screens, rfl⟩, -⟩ := Cut.screening_spec before
      obtain ⟨z', higher, screens'⟩ := raised.exists_screens screens
      cases after : (s'.cut p q).screening (p.distance q) with
      | none => exact absurd screens' (Cut.screening_eq_none_iff.1 after _)
      | some detour' =>
          have grows := delta_overCrest_mono screens higher (p.distance q)
          exact grows.trans ((Cut.screening_spec after).2 _ screens')

end Raised

end Scene

/-! ## Losses over higher edges -/

theorem Cut.spread_of_screening {c : Cut ℝ} {directLength : ℝ} {detour : Detour ℝ}
    (screened : c.screening directLength = some detour) : detour.spread = 0 := by
  obtain ⟨⟨crest, -, rfl⟩, -⟩ := Cut.screening_spec screened
  rfl

namespace Calculator

variable {c : Calculator ℝ}

/-- What a detour over one edge loses is a matter of its excess; without a detour that is zero,
and nothing is lost. -/
theorem edgeLosses_eq (sound : c.Sound) {detour : Option (Detour ℝ)}
    (single : ∀ d, detour = some d → d.spread = 0) :
    c.edgeLosses Detour.loss detour = c.wavelengths.map (edgeLoss (Detour.excess detour) 0) := by
  cases detour with
  | none =>
      have nothing : edgeLoss (Detour.excess none) 0 = fun _ : ℝ => (0 : ℝ) :=
        funext fun wavelength => if_pos le_rfl
      rw [nothing, List.map_const', sound.wavelengths]
      rfl
  | some d =>
      have loss : Detour.loss d = edgeLoss d.delta 0 := by
        funext wavelength
        rw [Detour.loss, single d rfl]
      exact congrArg (c.wavelengths.map ·) loss

/-- Of two paths that differ in their detours only, the one that loses more over edges loses
more under homogeneous conditions. -/
theorem homogeneous_mono {p p' : Path ℝ} (sound : c.Sound)
    (length : p'.length = p.length) (walls : p'.wallLoss = p.wallLoss)
    (footing : p'.footing = p.footing)
    (edges : List.Forall₂ (· ≤ ·) (c.edgeLosses Detour.loss p.scoredDetour)
      (c.edgeLosses Detour.loss p'.scoredDetour)) :
    List.Forall₂ (fun b b' => b.edges ≤ b'.edges ∧ b.homogeneous ≤ b'.homogeneous)
      (c.losses p).perBand (c.losses p').perBand := by
  have size : (c.edgeLosses Detour.favourableLoss p'.scoredDetour).length
      = (c.edgeLosses Detour.favourableLoss p.scoredDetour).length := by
    rw [length_edgeLosses sound, length_edgeLosses sound]
  rw [perBand_eq, perBand_eq, length, walls, footing]
  refine List.forall₂_iff_get.2 ⟨?_, fun i first second => ?_⟩
  · simp [edges.length_eq, size]
  · simp only [List.length_map, List.length_zip, lt_min_iff] at first second
    have grow := edges.get first.2.2.1 second.2.2.1
    simp only [List.get_eq_getElem] at grow
    simp only [List.get_eq_getElem, List.getElem_map, List.getElem_zip, BandLoss.homogeneous]
    exact ⟨grow, by linarith⟩

end Calculator

/-! ## The direct path -/

namespace Scene

theorem absorptions_directPath (s : Scene ℝ) (p q : Point ℝ) (sourceFactor : Option ℝ) :
    (s.directPath p q sourceFactor).absorptions = [] :=
  absorption?_bentEvents p q []

/-- The direct path can be scored, with one loss for every band. -/
theorem score_directPath (s : Scene ℝ) (p q : Point ℝ) (sourceFactor : Option ℝ)
    {c : Calculator ℝ} (sound : c.Sound) :
    c.score (s.directPath p q sourceFactor) = .ok (c.losses (s.directPath p q sourceFactor)) ∧
      (c.losses (s.directPath p q sourceFactor)).perBand.length = c.bands.size := by
  have length : 0 ≤ (s.directPath p q sourceFactor).length := p.distance_nonneg q
  have reflecting : ∀ a ∈ (s.directPath p q sourceFactor).absorptions, 0 ≤ a ∧ a < 1 := by
    simp [absorptions_directPath]
  exact ⟨Calculator.score_eq length reflecting, Calculator.length_perBand sound _⟩

/-- With buildings raised the direct path loses at least as much over edges and, under
homogeneous conditions, at all. -/
theorem Raised.homogeneous_mono {s s' : Scene ℝ} (raised : s.Raised s') (p q : Point ℝ)
    (sourceFactor : Option ℝ) {c : Calculator ℝ} (sound : c.Sound) :
    List.Forall₂ (fun b b' => b.edges ≤ b'.edges ∧ b.homogeneous ≤ b'.homogeneous)
      (c.losses (s.directPath p q sourceFactor)).perBand
      (c.losses (s'.directPath p q sourceFactor)).perBand := by
  have edges : List.Forall₂ (· ≤ ·)
      (c.edgeLosses Detour.loss ((s.cut p q).screening (p.distance q)))
      (c.edgeLosses Detour.loss ((s'.cut p q).screening (p.distance q))) := by
    rw [Calculator.edgeLosses_eq sound fun _ => Cut.spread_of_screening,
      Calculator.edgeLosses_eq sound fun _ => Cut.spread_of_screening, List.forall₂_map_left_iff,
      List.forall₂_map_right_iff, List.forall₂_same]
    intro wavelength band
    exact edgeLoss_mono (raised.screening_mono p q) 0 (sound.positive wavelength band)
  exact Calculator.homogeneous_mono sound rfl rfl (raised.footing_eq _ _) edges

end Scene

/-- If edits make a draft, so do the same edits with some of the buildings raised.  Wherever
paths are found in the first scene they are in the second, and its direct path has at least
the detour over the crest that screens it, the same ground, and in every band at least the
loss over edges and the loss under homogeneous conditions. -/
theorem higher_roofs {edits raised : List (Edit ℝ)} (higher : List.Forall₂ Edit.Raised edits raised)
    {d : Draft ℝ} (made : edits.foldlM Draft.edit .empty = .ok d) {source receiver : Point ℝ}
    {options : PathOptions ℝ} {paths : List (Path ℝ)}
    (found : d.finish.findPaths source receiver options = .ok paths) :
    ∃ d', raised.foldlM Draft.edit .empty = .ok d' ∧
      ∃ direct rest direct' rest', paths = direct :: rest ∧
        d'.finish.findPaths source receiver options = .ok (direct' :: rest') ∧
        direct.kind = .direct ∧ direct'.kind = .direct ∧
        Detour.excess direct.detour ≤ Detour.excess direct'.detour ∧
        direct'.footing = direct.footing ∧
        ∀ c : Calculator ℝ, c.Built → ∃ losses losses', c.score direct = .ok losses ∧
          c.score direct' = .ok losses' ∧ losses.perBand.length = c.bands.size ∧
          List.Forall₂ (fun b b' => b.edges ≤ b'.edges ∧ b.homogeneous ≤ b'.homogeneous)
            losses.perBand losses'.perBand := by
  have empty : (Draft.empty : Draft ℝ).Raised .empty := ⟨.nil, rfl, rfl, rfl⟩
  obtain ⟨d', made', raised⟩ := empty.edits higher made
  have scenes := raised.finish
  obtain ⟨accepted, made⟩ := check_bind_eq_ok_iff.1 found
  obtain rfl : d.finish.paths source receiver options = paths := Except.ok.inj made
  refine ⟨d', made', _, _, _, _, rfl, check_bind_eq_ok_iff.2 ⟨accepted, rfl⟩, rfl, rfl,
    scenes.screening_mono source receiver, scenes.footing_eq _ _, fun c built => ?_⟩
  have grow := scenes.homogeneous_mono source receiver options.sourceFactor built.sound
  have scored := fun s : Scene ℝ => s.score_directPath source receiver options.sourceFactor built.sound
  exact ⟨_, _, (scored _).1, (scored _).1, (scored _).2, grow⟩

/-- The block, two metres higher. -/
noncomputable def tallBlock : Building ℝ := { block with height := .absolute 12.0 }

noncomputable def tallBlockDraft : Draft ℝ := { Draft.empty with buildings := #[tallBlock] }

/-- The direct path through the block makes a detour, and with the higher block it loses at
least as much in each of the eight octaves. -/
theorem tallBlock_screens :
    ∃ direct rest direct' rest',
      blockDraft.finish.findPaths ⟨0, 0, 1⟩ ⟨0, 30, 4⟩ .standard = .ok (direct :: rest) ∧
      tallBlockDraft.finish.findPaths ⟨0, 0, 1⟩ ⟨0, 30, 4⟩ .standard = .ok (direct' :: rest') ∧
      0 < Detour.excess direct.detour ∧
      Detour.excess direct.detour ≤ Detour.excess direct'.detour ∧
      ∃ c losses losses', Calculator.Built c ∧ c.score direct = .ok losses ∧
        c.score direct' = .ok losses' ∧ losses.perBand.length = 8 ∧
        List.Forall₂ (fun b b' => b.edges ≤ b'.edges ∧ b.homogeneous ≤ b'.homogeneous)
          losses.perBand losses'.perBand := by
  have higher : List.Forall₂ Edit.Raised [.building block] [.building tallBlock] := by
    refine .cons (.building ⟨rfl, ?_, rfl⟩) .nil
    show (10.0 : ℝ) ≤ 12.0
    norm_num
  have made : [Edit.building block].foldlM Draft.edit .empty = .ok blockDraft := rfl
  have apart : Scalar.eps ≤ Point.distance (⟨0, 0, 1⟩ : Point ℝ) ⟨0, 30, 4⟩ := by
    rw [Point.distance_eq, Scalar.eps_eq]
    exact Real.le_sqrt_of_sq_le (by norm_num)
  have found : blockDraft.finish.findPaths ⟨0, 0, 1⟩ ⟨0, 30, 4⟩ .standard
      = .ok (blockDraft.finish.paths ⟨0, 0, 1⟩ ⟨0, 30, 4⟩ .standard) :=
    Scene.findPaths_eq_ok_iff.2 ⟨⟨apart, by simp [PathOptions.standard]⟩, rfl⟩
  have clear : ∀ building ∈ blockDraft.finish.buildings,
      ∀ part ∈ building.outline.insideParts ⟨0, 0, 1⟩ ⟨0, 30, 4⟩,
        Scalar.eps < part.1 ∧ part.2 < 1 - Scalar.eps := by
    simp only [Draft.finish, blockDraft, List.mem_toArray, List.mem_singleton, forall_eq,
      block_outline, block_insideParts]
    norm_num [Scalar.eps_eq]
  obtain ⟨crest, screens⟩ := Scene.exists_crest_of_obstructed block_obstructed clear
  obtain ⟨d', made', direct, rest, direct', rest', paths, found', -, -, detour, -, scored⟩ :=
    higher_roofs higher made found
  obtain rfl : tallBlockDraft = d' := Except.ok.inj made'
  have isDirect : blockDraft.finish.directPath ⟨0, 0, 1⟩ ⟨0, 30, 4⟩ none = direct :=
    (List.cons.inj paths).1
  have longer : 0 < Detour.excess direct.detour := by
    rw [← isDirect]
    exact Scene.excess_screening_pos screens
  obtain ⟨c, built, octaves⟩ := Calculator.exists_built .octave
  obtain ⟨losses, losses', score, score', size, grow⟩ := scored c built
  exact ⟨direct, rest, direct', rest', by rw [found, paths], found', longer, detour, c, losses,
    losses', built, score, score', by rw [size, octaves, BandSet.size], grow⟩

end RoadNoise
