/-
# RoadNoise.Proofs.OverTop -- the edges of the path over the top

The string over a cut is hung peg by peg.  What one more peg keeps (`Hull.Peg.Strung.hang`)
the whole string has: its pegs are clear of each other and each but the ends stands out
above its neighbours (`Cut.onwards_string`, `Cut.arched_string`).  No peg lies beyond an end
of the cut, so those between the first and the last lie strictly between the ends, and they
are crests (`Cut.edges_spec`).  That does not depend on what the first and the last peg are.

That they are the source and the receiver is another matter: an inside part of a building
beyond the end of the segment lets the string go of the receiver, and then the path over the
top may be shorter than the direct line (`hook_shortens`).  Where all parts lie on the
segment the path bends down at each of its edges and is no shorter (`over_top`).
-/
import RoadNoise.Proofs.Higher
import RoadNoise.Proofs.PathOrder
import RoadNoise.Proofs.Stretched

set_option autoImplicit false

namespace RoadNoise

/-! ## Strings -/

namespace Hull

/-- Of any three places in a row the middle one stands out above the line of the others. -/
def Arched (l : List (ℝ × ℝ)) : Prop :=
  ∀ front a b c back, l = front ++ a :: b :: c :: back → turn a b c < -Scalar.eps

theorem Arched.infix {l front back : List (ℝ × ℝ)} (arched : Arched (front ++ l ++ back)) :
    Arched l := by
  rintro front' a b c back' rfl
  exact arched (front ++ front') a b c (back' ++ back) (by simp)

namespace Peg

/-- A string as it is hung, its last peg first: each peg is clear of those before it, and each
but the ends stands out. -/
structure Strung (string : List (Peg ℝ)) : Prop where
  apart : string.Pairwise fun b a => a.abscissa + Scalar.eps ≤ b.abscissa
  stands : ∀ front p b a rest, string = front ++ p :: b :: a :: rest → sunken a b p = false

namespace Strung

variable {string rest : List (Peg ℝ)} {p : Peg ℝ}

theorem of_suffix (strung : Strung string) (kept : rest <:+ string) : Strung rest := by
  obtain ⟨off, rfl⟩ := kept
  refine ⟨strung.apart.sublist (List.sublist_append_right off rest), ?_⟩
  rintro front p b a rest rfl
  exact strung.stands (off ++ front) p b a rest (by simp)

/-- A peg clear of the last one that leaves it standing. -/
theorem push {last : Peg ℝ} (strung : Strung (last :: rest))
    (clear : last.abscissa + Scalar.eps ≤ p.abscissa)
    (leaves : ∀ a earlier, rest = a :: earlier → sunken a last p = false) :
    Strung (p :: last :: rest) := by
  have positive := Scalar.eps_pos
  constructor
  · refine List.pairwise_cons.2 ⟨fun b held => ?_, strung.apart⟩
    rcases List.mem_cons.1 held with rfl | earlier
    · exact clear
    · have := (List.pairwise_cons.1 strung.apart).1 b earlier
      linarith
  · rintro (_ | ⟨q, front⟩) p' b a earlier split
    · obtain ⟨rfl, rfl, isRest⟩ : p = p' ∧ last = b ∧ rest = a :: earlier := by simpa using split
      exact leaves a earlier isRest
    · exact strung.stands front p' b a earlier (List.cons.inj split).2

/-- One more peg, at or beyond the last. -/
theorem hang (strung : Strung string) (after : ∀ b ∈ string, b.abscissa ≤ p.abscissa) :
    Strung (Peg.hang string p) := by
  have kept := slacken_suffix sunken p string
  unfold Peg.hang
  split
  · rename_i last rest taut
    rw [taut] at kept
    have left := strung.of_suffix kept
    split
    · exact left
    · rename_i clear
      have before := after last (kept.subset (by simp))
      rw [Bool.not_eq_true, Scalar.near_eq_false_iff, abs_sub_comm,
        abs_of_nonneg (sub_nonneg.2 before)] at clear
      refine left.push (by linarith) fun a earlier isRest => ?_
      rw [isRest] at taut
      exact stands_of_slacken taut
  · refine ⟨List.pairwise_singleton _ _, fun front p' b a rest split => ?_⟩
    have long := congrArg List.length split
    simp only [List.length_append, List.length_cons, List.length_nil] at long
    omega

end Strung

theorem strung_foldl_hang {pegs : List (Peg ℝ)}
    (sorted : pegs.Pairwise fun a b => a.abscissa ≤ b.abscissa) :
    Strung (pegs.foldl Peg.hang []) := by
  induction pegs using List.reverseRecOn with
  | nil => exact ⟨.nil, by simp⟩
  | append_singleton pegs p ih =>
      obtain ⟨earlier, -, after⟩ := List.pairwise_append.1 sorted
      rw [List.foldl_append]
      refine (ih earlier).hang fun b held => after b ?_ p (by simp)
      exact (mem_of_mem_foldl_hang held).resolve_right (by simp)

end Peg
end Hull

/-! ## Strings over cuts -/

namespace Cut

open Hull

variable {c : Cut ℝ}

/-- The string over the ends and the crests of a cut, as pegs from the first on. -/
noncomputable def string (c : Cut ℝ) : List (Peg ℝ) :=
  ((Sequence.sortOn Peg.order (pegsOf c.profilePoints)).foldl Peg.hang []).reverse

theorem taut_profilePoints (c : Cut ℝ) : taut c.profilePoints = c.string.map Peg.place := rfl

theorem mem_pegsOf_of_mem_string {b : Peg ℝ} (held : b ∈ c.string) :
    b ∈ pegsOf c.profilePoints := by
  have hung := Peg.mem_of_mem_foldl_hang (List.mem_reverse.1 held)
  exact Sequence.mem_sortOn.1 (hung.resolve_right (by simp))

theorem tip_mem_profilePoints {b : Peg ℝ} (held : b ∈ c.string) : b.tip ∈ c.profilePoints :=
  List.mem_of_getElem? (getElem?_place (mem_pegsOf_of_mem_string held))

theorem tautWay_eq (c : Cut ℝ) :
    c.tautWay = c.string.map fun b => c.pointAt b.abscissa b.height := by
  unfold tautWay
  dsimp only
  rw [taut_profilePoints, List.filterMap_map, ← List.filterMap_eq_map]
  refine List.filterMap_congr fun b held => ?_
  rw [Function.comp_apply, List.getElem?_toArray, getElem?_place (mem_pegsOf_of_mem_string held)]
  rfl

theorem strung_string (c : Cut ℝ) : Peg.Strung c.string.reverse := by
  rw [string, List.reverse_reverse]
  exact Peg.strung_foldl_hang (Peg.pairwise_abscissa_sortOn _)

theorem onwards_string (c : Cut ℝ) :
    c.string.Pairwise fun a b => a.abscissa + Scalar.eps ≤ b.abscissa := by
  have apart := c.strung_string.apart
  rwa [List.pairwise_reverse] at apart

theorem arched_string (c : Cut ℝ) : Arched (c.string.map Peg.tip) := by
  intro front a b d back split
  obtain ⟨before, later, whole, -, first⟩ := List.map_eq_append_iff.1 split
  obtain ⟨p, _, rfl, rfl, second⟩ := List.map_eq_cons_iff.1 first
  obtain ⟨q, _, rfl, rfl, third⟩ := List.map_eq_cons_iff.1 second
  obtain ⟨r, after, rfl, rfl, -⟩ := List.map_eq_cons_iff.1 third
  have stands := c.strung_string.stands after.reverse r q p before.reverse
    (by rw [whole]; simp)
  simpa [Peg.sunken, Peg.tip] using stands

/-- The pegs between the ends of the string. -/
noncomputable def edges (c : Cut ℝ) : List (ℝ × ℝ) := c.string.tail.dropLast.map Peg.tip

theorem inner_tautWay (c : Cut ℝ) :
    Polyline.inner c.tautWay = c.edges.map fun e => c.pointAt e.1 e.2 := by
  rw [Polyline.inner, tautWay_eq, edges, ← List.map_tail, ← List.map_dropLast, List.map_map]
  rfl

/-- A bent string has pegs between its ends. -/
theorem exists_string_eq (bent : 2 < c.tautWay.length) :
    ∃ first mid last, c.string = first :: mid ++ [last] ∧ mid ≠ [] := by
  rw [tautWay_eq, List.length_map] at bent
  obtain ⟨first, rest, split⟩ := List.exists_cons_of_length_pos (by omega : 0 < c.string.length)
  rcases List.eq_nil_or_concat rest with rfl | ⟨mid, last, rfl⟩
  · simp [split] at bent
  · refine ⟨first, mid, last, by simpa using split, ?_⟩
    rintro rfl
    simp [split] at bent

/-- No crest lies beyond an end. -/
def CrestsWithin (c : Cut ℝ) : Prop := ∀ crest ∈ c.crests, 0 ≤ crest.1 ∧ crest.1 ≤ c.length

theorem mem_profilePoints {e : ℝ × ℝ} :
    e ∈ c.profilePoints ↔ e = (0, c.p1.z) ∨ e ∈ c.crests ∨ e = (c.length, c.p2.z) := by
  simp [profilePoints]

theorem within_of_mem_string (within : c.CrestsWithin) {b : Peg ℝ} (held : b ∈ c.string) :
    0 ≤ b.abscissa ∧ b.abscissa ≤ c.length := by
  have long : 0 ≤ c.length := Point.planarDistance_nonneg _ _
  rcases mem_profilePoints.1 (tip_mem_profilePoints held) with first | crest | last
  · rw [show b.abscissa = 0 from congrArg Prod.fst first]
    exact ⟨le_rfl, long⟩
  · exact within b.tip crest
  · rw [show b.abscissa = c.length from congrArg Prod.fst last]
    exact ⟨long, le_rfl⟩

theorem tip_mem_crests {b : Peg ℝ} (held : b ∈ c.string)
    (between : 0 < b.abscissa ∧ b.abscissa < c.length) : b.tip ∈ c.crests := by
  rcases mem_profilePoints.1 (tip_mem_profilePoints held) with first | crest | last
  · exact absurd (congrArg Prod.fst first) between.1.ne'
  · exact crest
  · exact absurd (congrArg Prod.fst last) between.2.ne

/-- The pegs between the first and the last lie strictly between the ends of the cut. -/
theorem between_of_mem_inner (within : c.CrestsWithin) {first last : Peg ℝ} {mid : List (Peg ℝ)}
    (split : c.string = first :: mid ++ [last]) {b : Peg ℝ} (inner : b ∈ mid) :
    0 < b.abscissa ∧ b.abscissa < c.length := by
  have positive := Scalar.eps_pos
  have start := within_of_mem_string within (b := first) (by simp [split])
  have stop := within_of_mem_string within (b := last) (by simp [split])
  have onwards := c.onwards_string
  rw [split, List.cons_append, List.pairwise_cons, List.pairwise_append] at onwards
  have after := onwards.1 b (by simp [inner])
  have before := onwards.2.2.2 b inner last (by simp)
  constructor <;> linarith

/-- What the edges of a string that bends are. -/
structure Edges (c : Cut ℝ) (edges : List (ℝ × ℝ)) : Prop where
  bent : edges ≠ []
  crests : ∀ e ∈ edges, e ∈ c.crests
  onwards : (0 :: edges.map Prod.fst ++ [c.length]).Pairwise (· < ·)
  arched : Arched edges

theorem Edges.between {edges : List (ℝ × ℝ)} (spec : c.Edges edges) {e : ℝ × ℝ}
    (edge : e ∈ edges) : 0 < e.1 ∧ e.1 < c.length := by
  have onwards := spec.onwards
  have listed : e.1 ∈ edges.map Prod.fst := List.mem_map_of_mem edge
  rw [List.cons_append, List.pairwise_cons, List.pairwise_append] at onwards
  exact ⟨onwards.1 _ (List.mem_append_left _ listed), onwards.2.2.2 _ listed _ (by simp)⟩

theorem edges_spec (within : c.CrestsWithin) (bent : 2 < c.tautWay.length) : c.Edges c.edges := by
  obtain ⟨first, mid, last, split, some⟩ := exists_string_eq bent
  have between : ∀ b ∈ mid, 0 < b.abscissa ∧ b.abscissa < c.length := fun b =>
    between_of_mem_inner within split
  have edges : c.edges = mid.map Peg.tip := by simp [Cut.edges, split]
  rw [edges]
  refine ⟨by simpa using some, ?crests, ?onwards, ?arched⟩
  case crests =>
    refine List.forall_mem_map.2 fun b inner => ?_
    exact tip_mem_crests (by simp [split, inner]) (between b inner)
  case onwards =>
    have distances : (mid.map Peg.tip).map Prod.fst = mid.map Peg.abscissa := by
      rw [List.map_map]
      rfl
    have positive := Scalar.eps_pos
    have onwards := c.onwards_string
    obtain ⟨b, inner⟩ := List.exists_mem_of_ne_nil mid some
    have long := (between b inner).1.trans (between b inner).2
    rw [split, List.cons_append, List.pairwise_cons, List.pairwise_append] at onwards
    rw [distances, List.cons_append, List.pairwise_cons, List.pairwise_append, List.pairwise_map,
      List.forall_mem_append, List.forall_mem_map, List.forall_mem_map]
    refine ⟨⟨fun b inner => (between b inner).1, by simpa using long⟩,
      onwards.2.1.imp fun apart => by linarith, List.pairwise_singleton _ _, fun b inner => ?_⟩
    simpa using (between b inner).2
  case arched =>
    have arched := c.arched_string
    have whole : Arched ([first.tip] ++ mid.map Peg.tip ++ [last.tip]) := by
      simpa [split] using arched
    exact whole.infix

/-- A string that bends and keeps both ends of the cut hangs over its edges from the one to
the other. -/
theorem tips_string (long : Scalar.eps ≤ c.length) (between : c.CrestsBetween)
    (bent : 2 < c.tautWay.length) :
    c.string.map Peg.tip = (0, c.p1.z) :: c.edges ++ [(c.length, c.p2.z)] := by
  obtain ⟨first, mid, last, split, -⟩ := exists_string_eq bent
  obtain ⟨start, stop⟩ := ends_taut long between
  have listed : ∀ b ∈ c.string, c.profilePoints[b.place]? = some b.tip := fun b held =>
    getElem?_place (mem_pegsOf_of_mem_string held)
  have atStart := listed first (by simp [split])
  have atStop := listed last (by simp [split])
  rw [taut_profilePoints, split] at start stop
  have isFirst : first.place = 0 := by simpa using start
  have isLast : last.place = c.crests.length + 1 := by
    rw [List.map_append, List.map_singleton, List.getLast?_concat] at stop
    exact Option.some.inj stop
  rw [isFirst] at atStart
  rw [isLast] at atStop
  have tipFirst : first.tip = (0, c.p1.z) := by simpa [profilePoints] using atStart.symm
  have tipLast : last.tip = (c.length, c.p2.z) := by simpa [profilePoints] using atStop.symm
  simp [edges, split, tipFirst, tipLast]

end Cut

/-! ## Paths over the top -/

namespace Cut

/-- Points of the plane of a cut are as far apart on the map as their distances. -/
theorem planarDistance_pointAt {c : Cut ℝ} (long : 0 < c.length) {d d' : ℝ} (onwards : d ≤ d')
    (z z' : ℝ) : (c.pointAt d z).planarDistance (c.pointAt d' z') = d' - d := by
  have square : (c.p2.x - c.p1.x) ^ 2 + (c.p2.y - c.p1.y) ^ 2 = c.length ^ 2 :=
    (Real.sq_sqrt (by positivity)).symm
  have scaled : ((c.pointAt d' z').x - (c.pointAt d z).x) ^ 2
      + ((c.pointAt d' z').y - (c.pointAt d z).y) ^ 2 = (d' - d) ^ 2 := by
    simp only [pointAt, if_pos long, Point.raisedTo, Point.between]
    field_simp
    linear_combination (d' - d) ^ 2 * square
  rw [Point.planarDistance_eq, scaled, Real.sqrt_sq (sub_nonneg.2 onwards)]

end Cut

/-- The mark is of the ground at an elevation or of a wall below a roof. -/
def Mark.Tops (m : Mark ℝ) (z : ℝ) : Prop :=
  match m.kind with
  | .ground => z = m.position.z
  | .wall _ roof _ => z = roof
  | .factor _ => False

namespace Cut

theorem exists_mark_of_mem_crests {c : Cut ℝ} {crest : ℝ × ℝ} (isCrest : crest ∈ c.crests) :
    ∃ m ∈ c.marks, m.distance = crest.1 ∧ m.Tops crest.2 := by
  obtain ⟨m, isMark, made⟩ := List.mem_filterMap.1 isCrest
  refine ⟨m, isMark, ?_⟩
  unfold Mark.Tops
  split at made
  · rename_i kind
    obtain rfl := Option.some.inj made
    simp [kind]
  · rename_i kind
    split_ifs at made
    obtain rfl := Option.some.inj made
    simp [kind]
  · simp at made

end Cut

/-- A detour spreads over the inner points of its way. -/
theorem Detour.spread_ofWay (way : List (Point ℝ)) (directLength : ℝ) :
    (Detour.ofWay way directLength).spread = Polyline.length (Polyline.inner way) := by
  unfold Detour.ofWay
  dsimp only
  split_ifs with short
  · have few : (Polyline.inner way).length ≤ 1 := by
      simp only [Polyline.inner, List.length_dropLast, List.length_tail]
      omega
    cases split : Polyline.inner way with
    | nil => rfl
    | cons p rest =>
        obtain rfl : rest = [] := by simpa [split] using few
        rw [Polyline.length_singleton]
  · rfl

/-- The path leads from end to end of a cut over edges in its plane, and its detour is over
these. -/
structure Path.BendsOver (path : Path ℝ) (c : Cut ℝ) (edges : List (ℝ × ℝ)) : Prop where
  events : path.events = bentEvents c.p1 c.p2 (edges.map fun e => c.pointAt e.1 e.2)
  bent : edges ≠ []
  /-- Each edge is the top of a wall or a place of the ground. -/
  marks : ∀ e ∈ edges, ∃ m ∈ c.marks, m.distance = e.1 ∧ m.Tops e.2
  onwards : (0 :: edges.map Prod.fst ++ [c.length]).Pairwise (· < ·)
  away : ∀ e ∈ edges, c.p1.planarDistance (c.pointAt e.1 e.2) = e.1
  arched : Hull.Arched edges
  detour : ∃ detour, path.detour = some detour ∧
    detour.delta = path.length - path.directLength ∧
    detour.spread = Polyline.length (edges.map fun e => c.pointAt e.1 e.2)

namespace Scene

variable {s : Scene ℝ} {source receiver : Point ℝ} {path : Path ℝ} {footing : Footing ℝ}

theorem bendsOver_of_topPath {directLength : ℝ}
    (made : (s.cut source receiver).topPath directLength footing = some path) :
    2 < (s.cut source receiver).tautWay.length ∧
      path.BendsOver (s.cut source receiver) (s.cut source receiver).edges := by
  obtain ⟨bent, rfl⟩ := topPath_eq_some_iff.1 made
  obtain ⟨held, crests, onwards, arched⟩ :=
    Cut.edges_spec (fun crest => between_of_mem_crests) bent
  refine ⟨bent, ?_, held, fun e edge => Cut.exists_mark_of_mem_crests (crests e edge), onwards,
    fun e edge => ?_, arched, _, rfl, rfl, ?_⟩
  · exact congrArg (bentEvents source receiver) (Cut.inner_tautWay _)
  · obtain ⟨start, stop⟩ := Cut.Edges.between ⟨held, crests, onwards, arched⟩ edge
    have away := Cut.planarDistance_pointAt (start.trans stop) start.le
      (s.cut source receiver).p1.z e.2
    rwa [Cut.pointAt_zero, sub_zero] at away
  · rw [← Cut.inner_tautWay]
    exact Detour.spread_ofWay _ _

theorem topPath_of_mem_paths {options : PathOptions ℝ}
    (isPath : path ∈ s.paths source receiver options) (top : path.kind = .top) :
    (s.cut source receiver).topPath (source.distance receiver)
      (s.footing [source, receiver] options.sourceFactor) = some path := by
  rcases cases_of_mem_paths isPath with rfl | isTop | around | reflected
  · simp [directPath] at top
  · exact isTop
  · have kind := (map_kind_aroundPaths _ _ _).subset (List.mem_map_of_mem around)
    simp [top] at kind
  · have kind := (of_mem_reflectedPaths reflected).1
    simp [top] at kind

theorem mem_paths_of_topPath {options : PathOptions ℝ} (vertical : options.vertical = true)
    (obstructed : s.obstructed source receiver = true)
    (made : (s.cut source receiver).topPath (source.distance receiver)
      (s.footing [source, receiver] options.sourceFactor) = some path) :
    path ∈ s.paths source receiver options := by
  have blocked : ((s.obstructing source receiver).isEmpty
      && (s.cut source receiver).groundAboveLine.isEmpty) = false := by
    simpa [Scene.obstructed, hides, imp_iff_not_or] using obstructed
  refine List.mem_append_left _ (List.mem_cons_of_mem _ ?_)
  simp only [bentPaths, blocked, Bool.false_eq_true, if_false, vertical, if_true, made]
  exact List.mem_append_left _ (by simp)

end Scene

/-- The path over the top leads from the source to the receiver over one or more edges in the
plane of the direct line, which are tops of walls or places of the ground at strictly
increasing distances between the ends, each standing out above its neighbours; its detour is
what it is longer than the direct line and the length over its edges.  Unless the cut has
inside parts beyond its ends, the way bends down at each edge, is as long as its events say,
and is no shorter than the direct line. -/
theorem over_top {s : Scene ℝ} {source receiver : Point ℝ} {options : PathOptions ℝ}
    {paths : List (Path ℝ)} (apart : 1 ≤ source.planarDistance receiver)
    (found : s.findPaths source receiver options = .ok paths) {path : Path ℝ}
    (isPath : path ∈ paths) (top : path.kind = .top) :
    ∃ edges, path.BendsOver (s.cut source receiver) edges ∧
      (s.PartsOnSegment source receiver →
        Hull.Arched ((0, source.z) :: edges ++ [(source.planarDistance receiver, receiver.z)]) ∧
        path.length = Polyline.length path.way ∧ path.directLength ≤ path.length) := by
  have small := Scalar.eps_lt_one
  obtain ⟨-, rfl⟩ := Scene.findPaths_eq_ok_iff.1 found
  have made := Scene.topPath_of_mem_paths isPath top
  obtain ⟨bent, bends⟩ := Scene.bendsOver_of_topPath made
  refine ⟨_, bends, fun onSegment => ?_⟩
  have long : Scalar.eps ≤ (s.cut source receiver).length := small.le.trans apart
  have between := Scene.crestsBetween apart onSegment
  obtain ⟨first, last⟩ := Cut.ends_tautWay long between
  refine ⟨?_, (Scene.leads_topPath made).2.2 first last, ?_⟩
  · have arched := Cut.arched_string (s.cut source receiver)
    rw [Cut.tips_string long between bent] at arched
    exact arched
  · rw [Scene.directLength_eq isPath]
    exact Scene.le_length_of_mem_paths (small.le.trans apart) isPath fun _ => between

/-- The string over the hook lets go of the receiver, so its detour is negative. -/
theorem hook_shortens :
    hookDraft.Made ∧ 1 ≤ hookSource.planarDistance hookReceiver ∧
      ∃ paths, hookDraft.finish.findPaths hookSource hookReceiver .standard = .ok paths ∧
        ∃ path ∈ paths, path.kind = .top ∧
          ∃ detour, path.detour = some detour ∧ detour.delta < 0 := by
  have obstructed : hookDraft.finish.obstructed hookSource hookReceiver = true := by
    have blocked := List.isEmpty_eq_false_iff_exists_mem.2 ⟨0, hook_obstructs⟩
    rw [Scene.obstructed, blocked]
    rfl
  refine ⟨hookDraft_made, hook_length.ge, _, bind_eq_ok_iff.2 ⟨(), hook_accepted, rfl⟩, ?_⟩
  have bent : 2 < (hookDraft.finish.cut hookSource hookReceiver).tautWay.length := by
    simp [hook_tautWay]
  refine ⟨_, Scene.mem_paths_of_topPath rfl obstructed
    (Scene.topPath_eq_some_iff.2 ⟨bent, rfl⟩), rfl, _, rfl, ?_⟩
  have far := hook_distance
  have short := hook_tautWay_length
  change Polyline.length _ - hookSource.distance hookReceiver < 0
  linarith

/-! ## Over a block -/

theorem block_length : Point.planarDistance (⟨0, 0, 1⟩ : Point ℝ) ⟨0, 30, 4⟩ = 30 := by
  rw [Point.planarDistance_eq]
  norm_num

theorem block_partsInside (b : Nat) : blockDraft.finish.partsInside ⟨0, 0, 1⟩ ⟨0, 30, 4⟩ b
    = if b = 0 then [(0, 10, (1 / 3, 2 / 3))] else [] := by
  cases b with
  | zero =>
      simp only [Scene.partsInside, Draft.finish, blockDraft, List.getElem?_toArray,
        List.map_toArray, List.getElem?_cons_zero, List.map_cons, block_outline,
        block_insideParts]
      norm_num [Building.roof, block]
  | succ b => simp [Scene.partsInside, Draft.finish, blockDraft]

theorem block_marks : (blockDraft.finish.cut ⟨0, 0, 1⟩ ⟨0, 30, 4⟩).marks
    = [⟨0, ⟨0, 0, 0⟩, .ground⟩, ⟨10, ⟨0, 10, 0⟩, .wall 0 10 true⟩,
      ⟨20, ⟨0, 20, 0⟩, .wall 0 10 false⟩, ⟨30, ⟨0, 30, 0⟩, .ground⟩] := by
  have meets : blockDraft.finish.Meets ⟨0, 0, 1⟩ ⟨0, 30, 4⟩ 0 := by
    refine ⟨block, rfl, 1 / 2, by norm_num, by norm_num, ?_⟩
    rw [show Point.between (⟨0, 0, 1⟩ : Point ℝ) ⟨0, 30, 4⟩ (1 / 2) = ⟨0, 15, 2.5⟩ by
      norm_num [Point.between]]
    exact (block_contains 15 2.5).2 (by norm_num)
  have found : ∀ b, blockDraft.finish.partsInside ⟨0, 0, 1⟩ ⟨0, 30, 4⟩ b ≠ [] →
      ¬blockDraft.finish.Missed ⟨0, 0, 1⟩ ⟨0, 30, 4⟩ b := by
    intro b parts missed
    rw [block_partsInside] at parts
    obtain rfl : b = 0 := by
      by_contra other
      simp [other] at parts
    exact missed.1 meets
  have one : blockDraft.finish.buildings.size = 1 := rfl
  have relief : blockDraft.finish.relief = none := rfl
  have level : ∀ x y, blockDraft.finish.elevation x y = 0 := fun _ _ => rfl
  have inside : (List.range blockDraft.finish.buildings.size).flatMap
      (blockDraft.finish.partsInside ⟨0, 0, 1⟩ ⟨0, 30, 4⟩) = [(0, 10, (1 / 3, 2 / 3))] := by
    simp [one, List.range_succ, block_partsInside]
  have walls : [((0 : Nat), (10 : ℝ), ((1 / 3 : ℝ), (2 / 3 : ℝ)))].flatMap
      (blockDraft.finish.wallMarks ⟨0, 0, 1⟩ ⟨0, 30, 4⟩)
        = [⟨10, ⟨0, 10, 0⟩, .wall 0 10 true⟩, ⟨20, ⟨0, 20, 0⟩, .wall 0 10 false⟩] := by
    simp only [List.flatMap_cons, List.flatMap_nil, Scene.wallMarks, Scene.groundPoint, level,
      block_length]
    simp [Scalar.eps_eq, Point.raisedTo, Point.between]
    norm_num
  have ground : blockDraft.finish.groundMarks ⟨0, 0, 1⟩ ⟨0, 30, 4⟩
      = [⟨0, ⟨0, 0, 0⟩, .ground⟩, ⟨30, ⟨0, 30, 0⟩, .ground⟩] := by
    simp only [Scene.groundMarks, relief, level, block_length]
    norm_num [Point.raisedTo]
  rw [Draft.finish_cut blockDraft_made blockDraft_holesInBox found, Scene.plainCut, inside]
  simp only [Scene.cutThrough, ground, Draft.finish_groundParts (d := blockDraft) rfl, walls,
    List.tail_cons, Scene.factorMarks, List.append_nil, List.cons_append, List.nil_append]
  refine Sequence.sortOn_key_eq Mark.distance ?_ ?_
  · exact .cons _ ((List.Perm.swap _ _ _).trans (.cons _ (.swap _ _ _)))
  · norm_num

theorem block_crests : (blockDraft.finish.cut ⟨0, 0, 1⟩ ⟨0, 30, 4⟩).crests
    = [(10, 10), (20, 10)] := by
  have outer : ∀ m : Mark ℝ, m.distance = 0 ∨ m.distance = 30 →
      (blockDraft.finish.cut ⟨0, 0, 1⟩ ⟨0, 30, 4⟩).isInner m = false := by
    intro m ends
    have positive := Scalar.eps_pos
    rw [← Bool.not_eq_true, Scene.isInner_iff, block_length]
    rcases ends with start | stop
    · rw [start]
      exact fun inner => by linarith
    · rw [stop]
      exact fun inner => by linarith
  rw [Cut.crests, block_marks]
  simp [outer]

theorem block_taut :
    Hull.taut [((0 : ℝ), (1 : ℝ)), (10, 10), (20, 10), (30, 4)] = [0, 1, 2, 3] := by
  have sorted : Sequence.sortOn Hull.Peg.order
      [(⟨0, 0, 1⟩ : Hull.Peg ℝ), ⟨1, 10, 10⟩, ⟨2, 20, 10⟩, ⟨3, 30, 4⟩]
        = [⟨0, 0, 1⟩, ⟨1, 10, 10⟩, ⟨2, 20, 10⟩, ⟨3, 30, 4⟩] := by
    refine List.mergeSort_of_pairwise ?_
    simp only [List.pairwise_cons, Hull.Peg.isLE_order_iff]
    norm_num
  have start : Hull.Peg.hang (Hull.Peg.hang [] ⟨0, 0, 1⟩) ⟨1, (10 : ℝ), 10⟩
      = [⟨1, 10, 10⟩, ⟨0, 0, 1⟩] := by
    simp [Hull.Peg.hang, Hull.slacken, Scalar.near, Scalar.eps_eq]
    norm_num
  have second : Hull.Peg.sunken ⟨0, 0, 1⟩ ⟨1, 10, 10⟩ ⟨2, (20 : ℝ), 10⟩ = false := by
    simp [Hull.Peg.sunken, Hull.turn, Scalar.eps_eq]
    norm_num
  have third : Hull.Peg.sunken ⟨1, 10, 10⟩ ⟨2, (20 : ℝ), 10⟩ ⟨3, 30, 4⟩ = false := by
    simp [Hull.Peg.sunken, Hull.turn, Scalar.eps_eq]
    norm_num
  have clear : Scalar.near (10 : ℝ) 20 = false := by
    rw [Scalar.near_eq_false_iff, Scalar.eps_eq]
    norm_num [le_abs]
  have clear' : Scalar.near (20 : ℝ) 30 = false := by
    rw [Scalar.near_eq_false_iff, Scalar.eps_eq]
    norm_num [le_abs]
  simp only [Hull.taut, List.zipIdx_cons, List.zipIdx_nil, List.map_cons, List.map_nil, zero_add,
    Nat.reduceAdd, sorted, List.foldl_cons, List.foldl_nil, start,
    Hull.Peg.hang_of_stands second, clear, Bool.false_eq_true, if_false,
    Hull.Peg.hang_of_stands third, clear']
  rfl

theorem block_tautWay_length :
    2 < (blockDraft.finish.cut ⟨0, 0, 1⟩ ⟨0, 30, 4⟩).tautWay.length := by
  have ends : (blockDraft.finish.cut ⟨0, 0, 1⟩ ⟨0, 30, 4⟩).profilePoints
      = [((0 : ℝ), (1 : ℝ)), (10, 10), (20, 10), (30, 4)] := by
    rw [Cut.profilePoints, block_crests, show (blockDraft.finish.cut ⟨0, 0, 1⟩ ⟨0, 30, 4⟩).length
      = 30 from block_length]
    rfl
  rw [Cut.tautWay, ends, block_taut]
  simp

theorem block_found : blockDraft.finish.findPaths ⟨0, 0, 1⟩ ⟨0, 30, 4⟩ .standard
    = .ok (blockDraft.finish.paths ⟨0, 0, 1⟩ ⟨0, 30, 4⟩ .standard) := by
  have far : (Scalar.eps : ℝ) ≤ Point.distance ⟨0, 0, 1⟩ ⟨0, 30, 4⟩ := by
    rw [Point.distance_eq, Scalar.eps_eq]
    exact Real.le_sqrt_of_sq_le (by norm_num)
  exact Scene.findPaths_eq_ok_iff.2 ⟨⟨far, by simp [PathOptions.standard]⟩, rfl⟩

theorem exists_block_top :
    ∃ path ∈ blockDraft.finish.paths ⟨0, 0, 1⟩ ⟨0, 30, 4⟩ .standard, path.kind = .top := by
  exact ⟨_, Scene.mem_paths_of_topPath rfl block_obstructed
    (Scene.topPath_eq_some_iff.2 ⟨block_tautWay_length, rfl⟩), rfl⟩

theorem block_partsOnSegment : blockDraft.finish.PartsOnSegment ⟨0, 0, 1⟩ ⟨0, 30, 4⟩ := by
  intro found inside
  obtain ⟨b, -, listed⟩ := List.mem_flatMap.1 inside
  have listed : found ∈ blockDraft.finish.partsInside ⟨0, 0, 1⟩ ⟨0, 30, 4⟩ b := listed
  rw [block_partsInside] at listed
  split_ifs at listed
  · obtain rfl := List.mem_singleton.1 listed
    norm_num
  · simp at listed

theorem block_apart : 1 ≤ Point.planarDistance (⟨0, 0, 1⟩ : Point ℝ) ⟨0, 30, 4⟩ := by
  rw [block_length]
  norm_num

/-- Over the block the path bends at the tops of its walls. -/
theorem block_bends : 1 ≤ Point.planarDistance (⟨0, 0, 1⟩ : Point ℝ) ⟨0, 30, 4⟩ ∧
    ∃ paths, blockDraft.finish.findPaths ⟨0, 0, 1⟩ ⟨0, 30, 4⟩ .standard = .ok paths ∧
      ∃ path ∈ paths, path.kind = .top ∧ blockDraft.finish.PartsOnSegment ⟨0, 0, 1⟩ ⟨0, 30, 4⟩ ∧
        ∃ edges, path.BendsOver (blockDraft.finish.cut ⟨0, 0, 1⟩ ⟨0, 30, 4⟩) edges ∧
          Hull.Arched ((0, 1) :: edges
            ++ [(Point.planarDistance (⟨0, 0, 1⟩ : Point ℝ) ⟨0, 30, 4⟩, 4)]) ∧
          path.length = Polyline.length path.way ∧ path.directLength ≤ path.length := by
  obtain ⟨path, isPath, top⟩ := exists_block_top
  obtain ⟨edges, bends, spec⟩ := over_top block_apart block_found isPath top
  exact ⟨block_apart, _, block_found, path, isPath, top, block_partsOnSegment, edges, bends,
    spec block_partsOnSegment⟩

/-- The path over the block comes after the direct one and is as long as the way through its
events. -/
theorem block_ordered : 1 ≤ Point.planarDistance (⟨0, 0, 1⟩ : Point ℝ) ⟨0, 30, 4⟩ ∧
    blockDraft.finish.PartsOnSegment ⟨0, 0, 1⟩ ⟨0, 30, 4⟩ ∧
    ∃ direct rest, blockDraft.finish.findPaths ⟨0, 0, 1⟩ ⟨0, 30, 4⟩ .standard
        = .ok (direct :: rest) ∧ direct.kind = .direct ∧ (direct :: rest).Pairwise Path.Before ∧
      ∃ path ∈ rest, path.kind = .top ∧
        blockDraft.finish.CallsFor ⟨0, 0, 1⟩ ⟨0, 30, 4⟩ .standard path.kind ∧
        (∃ inner, path.Leads ⟨0, 0, 1⟩ ⟨0, 30, 4⟩ inner) ∧
        path.length = Polyline.length path.way := by
  obtain ⟨path, isPath, top⟩ := exists_block_top
  obtain ⟨ordered, leading⟩ := paths_ordered ℝ
  obtain ⟨⟨direct, rest, paths, first⟩, before, -, called⟩ := ordered _ _ _ _ _ block_found
  obtain ⟨leads, length⟩ := leading _ _ _ _ _ block_found block_apart path isPath
  have calls := called path isPath
  have found := block_found
  rw [paths] at found before isPath
  have later : path ∈ rest := by
    refine (List.mem_cons.1 isPath).resolve_left ?_
    rintro rfl
    simp [first] at top
  exact ⟨block_apart, block_partsOnSegment, direct, rest, found, first, before, path, later, top,
    calls, leads, length fun _ => block_partsOnSegment⟩

/-- The path over the block loses no less than sound does by spreading over the direct line. -/
theorem block_bounded : blockDraft.Made ∧
    1 ≤ Point.planarDistance (⟨0, 0, 1⟩ : Point ℝ) ⟨0, 30, 4⟩ ∧
    blockDraft.finish.PartsOnSegment ⟨0, 0, 1⟩ ⟨0, 30, 4⟩ ∧
    ∃ paths, blockDraft.finish.findPaths ⟨0, 0, 1⟩ ⟨0, 30, 4⟩ .standard = .ok paths ∧
      ∃ path ∈ paths, path.kind = .top ∧ Point.distance ⟨0, 0, 1⟩ ⟨0, 30, 4⟩ ≤ path.length ∧
        ∃ c losses, Calculator.Built c ∧ c.score path = .ok losses ∧ losses.perBand.length = 8 ∧
          (∀ b ∈ losses.perBand, b.NoGain) ∧
          ∀ total ∈ losses.total, divergence (Point.distance ⟨0, 0, 1⟩ ⟨0, 30, 4⟩) ≤ total := by
  obtain ⟨path, isPath, top⟩ := exists_block_top
  obtain ⟨c, built, octaves⟩ := Calculator.exists_built .octave
  obtain ⟨-, losses, scored, size, noGain, bounded⟩ :=
    free_field blockDraft_made block_apart block_found built isPath
  obtain ⟨longer, total, -⟩ := bounded fun _ => block_partsOnSegment
  exact ⟨blockDraft_made, block_apart, block_partsOnSegment, _, block_found, path, isPath, top,
    longer, c, losses, built, scored, by rw [size, octaves, BandSet.size], noGain, total⟩

end RoadNoise
