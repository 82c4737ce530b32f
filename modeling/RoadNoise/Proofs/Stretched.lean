/-
# RoadNoise.Proofs.Stretched -- a taut string is an upper hull

Over pairs in whole millimetres the tolerances decide nothing, and the string that is
pulled taut over them is the upper side of their hull (`taut_stretched`): it leads from the
highest of the first pairs to the highest of the last, its slopes decrease, and all pairs
lie on or below it.  So the string is known by the pairs alone (`Stretched.unique`).

The scan is that of a lower side with the heights turned down (`mirror`).  Of pairs that
share their abscissa the highest comes first.  The others are not kept as long as one of
them is on top of the stack (`Keeps.skip`), and one that has taken all of those off the
stack comes in their place.
-/
import RoadNoise.Proofs.Chain

set_option autoImplicit false

namespace RoadNoise.Hull

/-! ## Polylines -/

/-- The places on the way through some places. -/
def polyline (chain : List (ℝ × ℝ)) : Set (ℝ × ℝ) :=
  {q | q ∈ chain ∨ ∃ e ∈ Sequence.adjacent chain, q ∈ segment ℝ e.1 e.2}

noncomputable def slope (e : (ℝ × ℝ) × (ℝ × ℝ)) : ℝ := (e.2.2 - e.1.2) / (e.2.1 - e.1.1)

section Polylines

variable {a b c : ℝ × ℝ} {chain : List (ℝ × ℝ)}

theorem slope_lt_iff (first : a.1 < b.1) (second : b.1 < c.1) :
    slope (a, b) < slope (b, c) ↔ 0 < turn a b c := by
  rw [slope, slope, div_lt_div_iff₀ (sub_pos.2 first) (sub_pos.2 second), ← sub_pos, turn_eq]
  refine iff_of_eq (congrArg (0 < ·) ?_)
  ring

/-- An abscissa between the first and the last is one of an edge. -/
theorem exists_edge {x : ℝ} : ∀ (rest : List (ℝ × ℝ)) (a b : ℝ × ℝ), a.1 ≤ x →
    (∀ v ∈ (a :: b :: rest).getLast?, x ≤ v.1) →
    ∃ e ∈ Sequence.adjacent (a :: b :: rest), e.1.1 ≤ x ∧ x ≤ e.2.1
  | [], a, b, first, last => ⟨(a, b), by simp [Sequence.adjacent], first, last b rfl⟩
  | c :: rest, a, b, first, last => by
      rw [Sequence.adjacent_cons_cons]
      rcases le_total x b.1 with before | after
      · exact ⟨(a, b), List.mem_cons_self, first, before⟩
      · obtain ⟨e, edge, within⟩ := exists_edge rest b c after (by simpa using last)
        exact ⟨e, List.mem_cons_of_mem _ edge, within⟩

end Polylines

/-! ## Sides that lead east -/

namespace LowerSide

variable {places : Set (ℝ × ℝ)} {side front : List (ℝ × ℝ)} {q v : ℝ × ℝ}

theorem ne_nil (lower : LowerSide places side) (member : q ∈ above places) : side ≠ [] := by
  rintro rfl
  obtain ⟨y, -, inside⟩ := above_mono lower.below member
  simp at inside

/-- The last place of a side that leads east is the lowest one of the last. -/
theorem mem_beyond_last (lower : LowerSide places (front ++ [v]))
    (eastwards : (front ++ [v]).Pairwise fun a b => a.1 < b.1) : above places ⊆ beyond (-1) v := by
  refine lower.above_subset (convex_beyond _ v) (rising_beyond _ v) fun q member => ?_
  rcases List.mem_append.1 member with earlier | last
  · have before := (List.pairwise_append.1 eastwards).2.2 q earlier v (by simp)
    exact .inl (by linarith)
  · rw [List.mem_singleton.1 last]
    exact .inr ⟨rfl, le_rfl⟩

theorem last_le (lower : LowerSide places side) (eastwards : side.Pairwise fun a b => a.1 < b.1)
    (last : v ∈ side.getLast?) (member : q ∈ above places) :
    q.1 < v.1 ∨ q.1 = v.1 ∧ v.2 ≤ q.2 := by
  obtain ⟨front, rfl⟩ := List.getLast?_eq_some_iff.1 last
  rcases lower.mem_beyond_last eastwards member with west | level
  · exact .inl (by linarith)
  · exact .inr level

/-- A side that leads east is all corners. -/
theorem mem_iff_corner (lower : LowerSide places side)
    (eastwards : side.Pairwise fun a b => a.1 < b.1) :
    v ∈ side ↔ v ∈ (above places).extremePoints ℝ := by
  constructor
  · intro member
    have inside : v ∈ above places := subset_above _ (lower.mem v member)
    obtain ⟨front, back, rfl⟩ := List.append_of_mem member
    cases back with
    | nil =>
        exact mem_extremePoints_of_subset (corner_beyond (by norm_num) v) inside
          (lower.mem_beyond_last eastwards)
    | cons b back => exact lower.corner
  · intro corner
    have sub : above {v | v ∈ side} ⊆ above places :=
      above_mono (Set.Subset.trans lower.mem (subset_above places))
    exact mem_of_mem_extremePoints_above
      (mem_extremePoints_of_subset corner (above_mono lower.below corner.1) sub)

/-- Straight below a place that lies on or above them all there is one of the polyline. -/
theorem exists_mem_polyline (lower : LowerSide places side)
    (eastwards : side.Pairwise fun a b => a.1 < b.1) (member : q ∈ above places) :
    ∃ y ≤ q.2, (q.1, y) ∈ polyline side := by
  match side, lower, eastwards with
  | [], lower, _ => exact absurd rfl (lower.ne_nil member)
  | [v], lower, eastwards =>
      have first := le_of_mem_beyond (lower.mem_beyond_first member)
      rcases lower.last_le eastwards (v := v) rfl member with west | ⟨level, low⟩
      · linarith
      · exact ⟨v.2, low, .inl (by rw [level, Prod.mk.eta]; simp)⟩
  | a :: b :: rest, lower, eastwards =>
      have first : a.1 ≤ q.1 := by
        simpa using le_of_mem_beyond (lower.mem_beyond_first member)
      have last : ∀ v ∈ (a :: b :: rest).getLast?, q.1 ≤ v.1 := fun v last => by
        rcases lower.last_le eastwards last member with west | ⟨level, -⟩
        · exact west.le
        · exact level.le
      obtain ⟨⟨c, d⟩, edge, after, before⟩ := exists_edge rest a b first last
      obtain ⟨front, back, split⟩ := Sequence.mem_adjacent_iff.1 edge
      have wide : c.1 < d.1 := Sequence.pairwise_of_mem_adjacent eastwards edge
      have onLeft : 0 ≤ turn c d q := by
        rw [split] at lower
        exact lower.left member
      exact ⟨lineHeight c d q.1, (lineHeight_le_iff wide).2 onLeft,
        .inr ⟨(c, d), edge, lineHeight_mem_segment wide after before⟩⟩

theorem pairwise_slope (lower : LowerSide places side)
    (eastwards : side.Pairwise fun a b => a.1 < b.1) :
    ((Sequence.adjacent side).map slope).Pairwise (· < ·) := by
  refine List.isChain_iff_pairwise.1 ?_
  have turns := lower.turns
  clear lower
  induction side with
  | nil => exact .nil
  | cons a side ih =>
      obtain ⟨before, later⟩ := List.pairwise_cons.1 eastwards
      obtain ⟨first, turns⟩ := List.triplewise_cons.1 turns
      match side with
      | [] => exact .nil
      | [b] => exact .singleton _
      | b :: c :: rest =>
          rw [Sequence.adjacent_cons_cons, Sequence.adjacent_cons_cons, List.map_cons,
            List.map_cons, List.isChain_cons_cons]
          refine ⟨(slope_lt_iff (before b (by simp)) ?_).2 ?_, ih later turns⟩
          · exact (List.pairwise_cons.1 later).1 c (by simp)
          · exact (List.pairwise_cons.1 first).1 c (by simp)

end LowerSide

/-! ## Heights turned down -/

/-- The plane with its heights turned down. -/
noncomputable def mirror : (ℝ × ℝ) ≃ₗ[ℝ] (ℝ × ℝ) :=
  (LinearEquiv.refl ℝ ℝ).prodCongr (LinearEquiv.neg ℝ)

/-- The places on or below a place of the hull of some places. -/
def shade (s : Set (ℝ × ℝ)) : Set (ℝ × ℝ) := {q | ∃ y, q.2 ≤ y ∧ (q.1, y) ∈ convexHull ℝ s}

section Mirror

variable {a b c q v : ℝ × ℝ} {s : Set (ℝ × ℝ)}

@[simp] theorem mirror_apply (q : ℝ × ℝ) : mirror q = (q.1, -q.2) := rfl

@[simp] theorem mirror_mirror (q : ℝ × ℝ) : mirror (mirror q) = q := by simp

theorem turn_mirror (a b c : ℝ × ℝ) : turn (mirror a) (mirror b) (mirror c) = -turn a b c := by
  simp only [turn_eq, mirror_apply]
  ring

theorem WholeMillimetres.mirror (whole : WholeMillimetres q) : WholeMillimetres (mirror q) := by
  obtain ⟨m, n, rfl⟩ := whole
  refine ⟨m, -n, ?_⟩
  simp [neg_div]

theorem image_mirror_shade (s : Set (ℝ × ℝ)) : mirror '' shade s = above (mirror '' s) := by
  have hull : convexHull ℝ (mirror '' s) = mirror '' convexHull ℝ s :=
    (mirror.toLinearMap.image_convexHull s).symm
  have height : ∀ x y : ℝ, (x, y) ∈ mirror '' convexHull ℝ s ↔ (x, -y) ∈ convexHull ℝ s := by
    intro x y
    constructor
    · rintro ⟨q, inside, same⟩
      obtain ⟨rfl, rfl⟩ : q.1 = x ∧ -q.2 = y := Prod.mk.inj same
      simpa using inside
    · exact fun inside => ⟨(x, -y), inside, by simp⟩
  ext q
  rw [above, hull]
  constructor
  · rintro ⟨p, ⟨y, high, inside⟩, rfl⟩
    exact ⟨-y, neg_le_neg high, (height _ _).2 (by simpa using inside)⟩
  · rintro ⟨y, low, inside⟩
    exact ⟨mirror q, ⟨-y, neg_le_neg low, (height _ _).1 inside⟩, mirror_mirror q⟩

theorem mirror_mem_above : mirror q ∈ above (mirror '' s) ↔ q ∈ shade s := by
  rw [← image_mirror_shade, mirror.injective.mem_set_image]

theorem mirror_corner : mirror v ∈ (above (mirror '' s)).extremePoints ℝ ↔
    v ∈ (shade s).extremePoints ℝ := by
  rw [← image_mirror_shade, ← image_extremePoints, mirror.injective.mem_set_image]

theorem slope_mirror (e : (ℝ × ℝ) × (ℝ × ℝ)) : slope (mirror e.1, mirror e.2) = -slope e := by
  simp only [slope, mirror_apply]
  ring

theorem mirror_mem_polyline {chain : List (ℝ × ℝ)} (onWay : q ∈ polyline (chain.map mirror)) :
    mirror q ∈ polyline chain := by
  rcases onWay with held | ⟨e, edge, between⟩
  · obtain ⟨v, held, rfl⟩ := List.mem_map.1 held
    exact .inl (by rwa [mirror_mirror])
  · rw [Sequence.adjacent_map] at edge
    obtain ⟨⟨a, b⟩, pair, rfl⟩ := List.mem_map.1 edge
    obtain ⟨p, inner, rfl⟩ := (image_segment ℝ mirror.toLinearMap.toAffineMap a b).ge between
    exact .inr ⟨(a, b), pair, (mirror_mirror p).symm ▸ inner⟩

end Mirror

/-! ## Stretched strings -/

/-- A string that is stretched over all pairs: the upper side of their hull. -/
structure Stretched (pairs chain : List (ℝ × ℝ)) : Prop where
  mem : ∀ v ∈ chain, v ∈ pairs
  eastwards : chain.Pairwise fun a b => a.1 < b.1
  /-- It starts at the highest of the first pairs. -/
  first : ∀ q ∈ pairs, ∃ v ∈ chain.head?, v.1 < q.1 ∨ v.1 = q.1 ∧ q.2 ≤ v.2
  /-- It ends at the highest of the last pairs. -/
  last : ∀ q ∈ pairs, ∃ v ∈ chain.getLast?, q.1 < v.1 ∨ q.1 = v.1 ∧ q.2 ≤ v.2
  slopes : ((Sequence.adjacent chain).map slope).Pairwise fun before after => after < before
  /-- Nothing of the hull is above it. -/
  covers : ∀ q ∈ convexHull ℝ {q | q ∈ pairs}, ∃ y, q.2 ≤ y ∧ (q.1, y) ∈ polyline chain
  corners : ∀ v, v ∈ chain ↔ v ∈ (shade {q | q ∈ pairs}).extremePoints ℝ

/-- With the heights turned down a stretched string is a lower side. -/
theorem stretched_of_lowerSide {pairs chain : List (ℝ × ℝ)}
    (lower : LowerSide (mirror '' {q | q ∈ pairs}) (chain.map mirror))
    (eastwards : chain.Pairwise fun a b => a.1 < b.1) : Stretched pairs chain := by
  have east : (chain.map mirror).Pairwise fun a b => a.1 < b.1 := List.pairwise_map.2 eastwards
  have inside : ∀ q ∈ pairs, mirror q ∈ above (mirror '' {q | q ∈ pairs}) := fun q member =>
    subset_above _ ⟨q, member, rfl⟩
  refine ⟨?mem, eastwards, ?first, ?last, ?slopes, ?covers, ?corners⟩
  case mem =>
    intro v held
    obtain ⟨q, member, same⟩ := lower.mem _ (List.mem_map_of_mem held)
    exact mirror.injective same ▸ member
  case first =>
    intro q member
    cases chain with
    | nil => exact absurd rfl (lower.ne_nil (inside q member))
    | cons v chain =>
        refine ⟨v, rfl, ?_⟩
        rcases lower.mem_beyond_first (inside q member) with west | ⟨level, low⟩
        · exact .inl (by simpa using west)
        · exact .inr ⟨level.symm, neg_le_neg_iff.1 low⟩
  case last =>
    intro q member
    have held : chain ≠ [] := fun none => lower.ne_nil (inside q member) (by rw [none]; rfl)
    refine ⟨chain.getLast held, List.getLast?_eq_some_getLast held, ?_⟩
    have last : mirror (chain.getLast held) ∈ (chain.map mirror).getLast? := by
      rw [List.getLast?_map, List.getLast?_eq_some_getLast held]
      rfl
    rcases lower.last_le east last (inside q member) with east | ⟨level, low⟩
    · exact .inl east
    · exact .inr ⟨level, neg_le_neg_iff.1 low⟩
  case slopes =>
    have turned : (Sequence.adjacent (chain.map mirror)).map slope
        = ((Sequence.adjacent chain).map slope).map Neg.neg := by
      rw [Sequence.adjacent_map, List.map_map, List.map_map]
      exact List.map_congr_left fun e _ => slope_mirror e
    have increasing := lower.pairwise_slope east
    rw [turned, List.pairwise_map] at increasing
    exact increasing.imp neg_lt_neg_iff.1
  case covers =>
    intro q member
    have below : mirror q ∈ above (mirror '' {q | q ∈ pairs}) :=
      mirror_mem_above.2 ⟨q.2, le_rfl, member⟩
    obtain ⟨y, low, onWay⟩ := lower.exists_mem_polyline east below
    exact ⟨-y, le_neg.1 low, mirror_mem_polyline onWay⟩
  case corners =>
    intro v
    rw [← mirror_corner, ← lower.mem_iff_corner east, List.mem_map_of_injective mirror.injective]

/-- Whatever holds the string, it hangs on the same places. -/
theorem Stretched.unique {pairs others chain chain' : List (ℝ × ℝ)} (string : Stretched pairs chain)
    (string' : Stretched others chain') (same : ∀ q, q ∈ others ↔ q ∈ pairs) : chain' = chain := by
  have nodup : ∀ {l : List (ℝ × ℝ)}, l.Pairwise (fun a b => a.1 < b.1) → l.Nodup := fun sorted =>
    sorted.imp fun before equal => before.ne (congrArg Prod.fst equal)
  refine Sequence.eq_of_pairwise_key Prod.fst ?_ (string'.eastwards.imp le_of_lt) string.eastwards
  refine (List.perm_ext_iff_of_nodup (nodup string'.eastwards) (nodup string.eastwards)).2 ?_
  intro v
  have all : {q | q ∈ others} = {q | q ∈ pairs} := Set.ext same
  rw [string.corners, string'.corners, all]

/-! ## Hanging the string -/

namespace Peg

/-- The pair of a peg. -/
def tip (p : Peg ℝ) : ℝ × ℝ := (p.abscissa, p.height)

theorem mirror_tip (p : Peg ℝ) : mirror p.tip = p.mirrored := rfl

/-- In whole millimetres the tolerance decides nothing. -/
theorem sunken_eq {a b p : Peg ℝ} (wholeA : WholeMillimetres a.mirrored)
    (wholeB : WholeMillimetres b.mirrored) (wholeP : WholeMillimetres p.mirrored) :
    sunken a b p = dented a.mirrored b.mirrored p.mirrored := by
  have turned : turn a.mirrored b.mirrored p.mirrored = -turn a.tip b.tip p.tip := by
    rw [← mirror_tip, ← mirror_tip, ← mirror_tip, turn_mirror]
  have small := turn_le_eps_iff wholeA wholeB wholeP
  rw [turned, neg_le] at small
  rw [sunken, dented, decide_eq_decide, turned]
  exact small

/-- The string over some pegs: what the scan of a lower side keeps of them, each farther
east than the one below it. -/
structure Hung (pegs string : List (Peg ℝ)) : Prop where
  mem : ∀ b ∈ string, b ∈ pegs
  keeps : Keeps (pegs.map mirrored) (string.map mirrored)
  eastwards : string.Pairwise fun b a => a.abscissa < b.abscissa

namespace Hung

variable {pegs string rest : List (Peg ℝ)} {p top : Peg ℝ} (hung : Hung pegs string)
  (whole : ∀ b ∈ pegs ++ [p], WholeMillimetres b.mirrored)
  (after : ∀ b ∈ pegs, toLex b.mirrored ≤ toLex p.mirrored)
include hung

theorem after_mirrored (after : ∀ b ∈ pegs, toLex b.mirrored ≤ toLex p.mirrored) :
    ∀ v ∈ string.map mirrored, toLex v ≤ toLex p.mirrored := by
  intro v member
  obtain ⟨b, held, rfl⟩ := List.mem_map.1 member
  exact after b (hung.mem b held)

theorem map_slacken (whole : ∀ b ∈ pegs ++ [p], WholeMillimetres b.mirrored) :
    (slacken sunken p string).map mirrored
      = slacken dented p.mirrored (string.map mirrored) := by
  have held : ∀ b ∈ string, WholeMillimetres b.mirrored := fun b held =>
    whole b (List.mem_append_left _ (hung.mem b held))
  exact slacken_map fun a memA b memB =>
    sunken_eq (held a memA) (held b memB) (whole p (by simp))

include whole after

/-- A peg farther east than all that are left of the string is hung on it. -/
theorem push (east : ∀ b ∈ slacken sunken p string, b.abscissa < p.abscissa) :
    Hung (pegs ++ [p]) (p :: slacken sunken p string) := by
  have kept := slacken_suffix sunken p string
  refine ⟨?_, ?_, List.pairwise_cons.2 ⟨east, hung.eastwards.sublist kept.sublist⟩⟩
  · intro b held
    rcases List.mem_cons.1 held with rfl | held
    · simp
    · exact List.mem_append_left _ (hung.mem b (kept.subset held))
  · rw [List.map_append, List.map_cons, List.map_cons, List.map_nil, hung.map_slacken whole]
    refine hung.keeps.push (hung.after_mirrored after) fun v member => ?_
    rw [← hung.map_slacken whole] at member
    obtain ⟨b, held, rfl⟩ := List.mem_map.1 member
    exact Prod.Lex.toLex_lt_toLex.2 (.inl (east b held))

/-- A peg at the abscissa of the last one that is left is not. -/
theorem skip (taut : slacken sunken p string = top :: rest) (level : top.abscissa = p.abscissa) :
    Hung (pegs ++ [p]) (top :: rest) := by
  have kept : top :: rest <:+ string := taut ▸ slacken_suffix sunken p string
  refine ⟨fun b held => List.mem_append_left _ (hung.mem b (kept.subset held)), ?_,
    hung.eastwards.sublist kept.sublist⟩
  have stack := hung.map_slacken whole
  rw [taut, List.map_cons] at stack
  rw [List.map_append]
  exact hung.keeps.skip (hung.after_mirrored after) stack.symm level

theorem hang : Hung (pegs ++ [p]) (Peg.hang string p) := by
  unfold Peg.hang
  split
  · rename_i top rest taut
    have kept : top :: rest <:+ string := taut ▸ slacken_suffix sunken p string
    have member : top ∈ pegs := hung.mem top (kept.subset (by simp))
    obtain ⟨m, n, placeTop⟩ := whole top (List.mem_append_left _ member)
    obtain ⟨m', n', placeP⟩ := whole p (by simp)
    have near := near_iff_eq (congrArg Prod.fst placeTop) (congrArg Prod.fst placeP)
    split
    · rename_i close
      exact hung.skip whole after taut (near.1 close)
    · rename_i apart
      have le : top.abscissa ≤ p.abscissa := Prod.Lex.monotone_fst _ _ (after top member)
      have below : top.abscissa < p.abscissa :=
        lt_of_le_of_ne le fun level => apart (near.2 level)
      have pushed := hung.push whole after
      rw [taut] at pushed
      refine pushed fun b held => ?_
      rcases List.mem_cons.1 held with rfl | lower
      · exact below
      · have eastwards := hung.eastwards.sublist kept.sublist
        exact ((List.pairwise_cons.1 eastwards).1 b lower).trans below
  · rename_i taut
    have pushed := hung.push whole after
    rw [taut] at pushed
    exact pushed (by simp)

end Hung

theorem hung_foldl_hang (pegs : List (Peg ℝ)) (whole : ∀ b ∈ pegs, WholeMillimetres b.mirrored)
    (sorted : pegs.Pairwise fun a b => toLex a.mirrored ≤ toLex b.mirrored) :
    Hung pegs (pegs.foldl Peg.hang []) := by
  induction pegs using List.reverseRecOn with
  | nil => exact ⟨by simp, ⟨by simp, ⟨.nil, .nil⟩, by simp⟩, .nil⟩
  | append_singleton pegs p ih =>
      obtain ⟨earlier, -, after⟩ := List.pairwise_append.1 sorted
      rw [List.foldl_append]
      exact (ih (fun b held => whole b (List.mem_append_left _ held)) earlier).hang whole
        fun b held => after b held p (by simp)

end Peg

/-! ## The taut string -/

section Taut

variable {pairs : List (ℝ × ℝ)}

/-- The pegs that pairs are hung on. -/
def pegsOf (pairs : List (ℝ × ℝ)) : List (Peg ℝ) :=
  pairs.zipIdx.map fun ((x, h), i) => ⟨i, x, h⟩

theorem map_tip_pegsOf (pairs : List (ℝ × ℝ)) : (pegsOf pairs).map Peg.tip = pairs := by
  rw [pegsOf, List.map_map]
  exact List.zipIdx_map_fst 0 pairs

theorem getElem?_place {b : Peg ℝ} (peg : b ∈ pegsOf pairs) : pairs[b.place]? = some b.tip := by
  obtain ⟨⟨⟨x, h⟩, i⟩, entry, rfl⟩ := List.mem_map.1 peg
  exact List.mem_zipIdx_iff_getElem?.1 entry

theorem places_sortOn_pegsOf (pairs : List (ℝ × ℝ)) :
    {q | q ∈ (Sequence.sortOn Peg.order (pegsOf pairs)).map Peg.mirrored}
      = mirror '' {q | q ∈ pairs} := by
  have places : (pegsOf pairs).map Peg.mirrored = pairs.map mirror := by
    rw [← congrArg (List.map mirror) (map_tip_pegsOf pairs), List.map_map]
    rfl
  ext q
  rw [Set.mem_ofPred_eq, ((Sequence.sortOn_perm _ _).map Peg.mirrored).mem_iff, places,
    List.mem_map]
  rfl

/-- The places that the string over some pairs hangs on, from west to east. -/
noncomputable def tautPlaces (pairs : List (ℝ × ℝ)) : List (ℝ × ℝ) :=
  ((Sequence.sortOn Peg.order (pegsOf pairs)).foldl Peg.hang []).reverse.map Peg.tip

theorem hung_pegsOf (whole : ∀ q ∈ pairs, WholeMillimetres q) :
    Peg.Hung (Sequence.sortOn Peg.order (pegsOf pairs))
      ((Sequence.sortOn Peg.order (pegsOf pairs)).foldl Peg.hang []) := by
  refine Peg.hung_foldl_hang _ (fun b peg => ?_) (Peg.pairwise_mirrored_sortOn _)
  have member : b.tip ∈ pairs := by
    rw [← map_tip_pegsOf pairs]
    exact List.mem_map_of_mem (Sequence.mem_sortOn.1 peg)
  exact (whole b.tip member).mirror

theorem map_getElem?_taut (whole : ∀ q ∈ pairs, WholeMillimetres q) :
    (taut pairs).map (pairs[·]?) = (tautPlaces pairs).map some := by
  rw [taut, tautPlaces, List.map_map, List.map_map]
  refine List.map_congr_left fun b held => ?_
  exact getElem?_place (Sequence.mem_sortOn.1 ((hung_pegsOf whole).mem b (List.mem_reverse.1 held)))

theorem stretched_tautPlaces (whole : ∀ q ∈ pairs, WholeMillimetres q) :
    Stretched pairs (tautPlaces pairs) := by
  have hung := hung_pegsOf whole
  have lower := hung.keeps.lowerSide
  rw [places_sortOn_pegsOf] at lower
  refine stretched_of_lowerSide ?_ ?_
  · rw [tautPlaces, List.map_map, List.map_reverse]
    exact lower
  · rw [tautPlaces, List.pairwise_map, List.pairwise_reverse]
    exact hung.eastwards

/-- Over pairs in whole millimetres the taut string is the upper side of their hull, and so
it does not depend on their order nor on how often each occurs. -/
theorem taut_stretched (whole : ∀ q ∈ pairs, WholeMillimetres q) :
    ∃ chain, (taut pairs).map (pairs[·]?) = chain.map some ∧ Stretched pairs chain ∧
      ∀ others : List (ℝ × ℝ), (∀ q, q ∈ others ↔ q ∈ pairs) →
        (taut others).map (others[·]?) = chain.map some := by
  have string := stretched_tautPlaces whole
  refine ⟨tautPlaces pairs, map_getElem?_taut whole, string, fun others same => ?_⟩
  have whole' : ∀ q ∈ others, WholeMillimetres q := fun q member => whole q ((same q).1 member)
  rw [map_getElem?_taut whole', string.unique (stretched_tautPlaces whole') same]

/-- Gables at three abscissae, one of them twice and others below them, in metres. -/
noncomputable def gables : List (ℝ × ℝ) :=
  [((10 : ℤ), (0 : ℤ)), (0, 1), (5, 4), (0, 3), (5, 4), (5, 2)].map fun (m, n) => ((m : ℝ), (n : ℝ))

/-- The string over the gables hangs on the same places if they are listed from behind. -/
theorem taut_gables : (∀ q ∈ gables, WholeMillimetres q) ∧
    (taut gables.reverse).map (gables.reverse[·]?) = (taut gables).map (gables[·]?) := by
  have whole : ∀ q ∈ gables, WholeMillimetres q := by
    intro q member
    obtain ⟨⟨m, n⟩, -, rfl⟩ := List.mem_map.1 member
    exact wholeMillimetres_metres m n
  obtain ⟨chain, hangs, -, others⟩ := taut_stretched whole
  exact ⟨whole, (others gables.reverse fun q => List.mem_reverse).trans hangs.symm⟩

end Taut

end RoadNoise.Hull
