/-
# RoadNoise.Proofs.Parted -- the inside parts of a segment

The parts of a segment inside an outline come in order, with gaps between them, and stray
from the segment by no more than the tolerance: pieces that continue each other have been
joined, and pieces that do not are a piece apart (`gaps_of_joinFrom`).  Their ends are
positions at which the segment was cut, so a position off all of those lies in a part
exactly when it lies off the ends of one, and that is exactly when its place is inside
(`insideParts_spec`).
-/
import RoadNoise.Proofs.Spans

set_option autoImplicit false

namespace RoadNoise

/-! ## Joined parts -/

/-- A joined part ends where one of the parts does. -/
theorem exists_stop_of_mem_joinFrom {rest : List (ℝ × ℝ)} {a b x y : ℝ}
    (joined : (x, y) ∈ joinFrom a b rest) : ∃ s, (s, y) ∈ (a, b) :: rest := by
  induction rest generalizing a b with
  | nil =>
      obtain ⟨rfl, rfl⟩ : x = a ∧ y = b := by simpa [joinFrom] using joined
      exact ⟨x, by simp⟩
  | cons next rest ih =>
      obtain ⟨c, d⟩ := next
      rw [joinFrom] at joined
      split at joined
      · obtain ⟨s, member⟩ := ih joined
        rcases List.mem_cons.1 member with first | later
        · obtain ⟨-, rfl⟩ := Prod.mk.inj first
          exact ⟨c, by simp⟩
        · exact ⟨s, by simp [later]⟩
      · rcases List.mem_cons.1 joined with first | later
        · obtain ⟨rfl, rfl⟩ := Prod.mk.inj first
          exact ⟨x, by simp⟩
        · obtain ⟨s, member⟩ := ih later
          exact ⟨s, List.mem_cons_of_mem _ member⟩

theorem exists_stop_of_mem_joinParts {parts : List (ℝ × ℝ)} {x y : ℝ}
    (joined : (x, y) ∈ joinParts parts) : ∃ s, (s, y) ∈ parts := by
  cases parts with
  | nil => simp [joinParts] at joined
  | cons part rest => exact exists_stop_of_mem_joinFrom joined

/-- What is left after joining has gaps in between. -/
theorem gaps_of_joinFrom {a b : ℝ} {rest : List (ℝ × ℝ)} (wide : Wide ((a, b) :: rest)) :
    (joinFrom a b rest).Pairwise fun u v => u.2 < v.1 := by
  induction rest generalizing a b with
  | nil => simp [joinFrom]
  | cons next rest ih =>
      obtain ⟨c, d⟩ := next
      rw [joinFrom]
      split
      · rename_i touching
        obtain rfl := wide.near_iff.1 touching
        exact ih wide.join
      · rename_i apart
        have beyond : b < c :=
          ((List.pairwise_cons.1 wide.ordered.1).1 (c, d) (by simp)).lt_of_ne
            fun same => apart (wide.near_iff.2 same)
        refine List.pairwise_cons.2 ⟨fun v later => ?_, ih wide.tail⟩
        -- a later part begins with one of the parts from `c` on
        obtain ⟨e, member, -⟩ := exists_of_mem_joinFrom wide.tail.ordered later
        rcases List.mem_cons.1 member with first | second
        · exact beyond.trans_eq (Prod.mk.inj first).1.symm
        · have after := (List.pairwise_cons.1 wide.tail.ordered.1).1 _ second
          exact beyond.trans_le ((wide.2 (c, d) (by simp)).le.trans after)

theorem gaps_of_joinParts {parts : List (ℝ × ℝ)} (wide : Wide parts) :
    (joinParts parts).Pairwise fun u v => u.2 < v.1 := by
  cases parts with
  | nil => exact .nil
  | cons part rest => exact gaps_of_joinFrom wide

namespace Polygon

variable {polygon : Polygon ℝ} {p q : Point ℝ}

/-- The ends of the inside parts are positions at which the segment is cut. -/
theorem ends_of_mem_insideParts {part : ℝ × ℝ} (inside : part ∈ polygon.insideParts p q) :
    part.1 ∈ tidyPositions ((0 : ℝ) :: polygon.boundaryCrossings p q ++ [1]) ∧
      part.2 ∈ tidyPositions ((0 : ℝ) :: polygon.boundaryCrossings p q ++ [1]) := by
  obtain ⟨x, y⟩ := part
  obtain ⟨e, piece, -⟩ := exists_piece_of_mem_insideParts inside
  obtain ⟨s, member⟩ := exists_stop_of_mem_joinParts inside
  exact ⟨(Sequence.mem_of_mem_adjacent piece).1,
    (Sequence.mem_of_mem_adjacent (List.mem_filter.1 member).1).2⟩

theorem gaps_insideParts (polygon : Polygon ℝ) (p q : Point ℝ) :
    (polygon.insideParts p q).Pairwise fun u v => u.2 < v.1 :=
  gaps_of_joinParts ((wide_adjacent (pairwise_tidyPositions _)).filter _)

/-- The inside parts of a segment are in order, with gaps between them, and stray from the
segment by no more than the tolerance.  Where every edge is parallel to the segment or
clearly turns from it, a position off the ends and off all crossings with edges lies in one
of them exactly when its place is inside. -/
theorem insideParts_spec (drawn : polygon.Drawn) (holes : polygon.HolesInBox)
    (posed : ∀ e ∈ polygon.edges, Posed p q e) :
    (∀ part ∈ polygon.insideParts p q,
      (-Scalar.eps ≤ part.1 ∧ part.2 ≤ 1 + Scalar.eps) ∧ part.1 < part.2) ∧
    (polygon.insideParts p q).Pairwise (fun u v => u.2 < v.1) ∧
    ∀ t, 0 < t → t < 1 → Clear (10 * Scalar.eps) t [0, 1] →
      (∀ e ∈ polygon.edges, Clear (10 * Scalar.eps) t (Crossing.of p q e.1 e.2).positions) →
      ((∃ part ∈ polygon.insideParts p q, part.1 ≤ t ∧ t ≤ part.2) ↔
        polygon.contains (Point.between p q t) = true) := by
  have positive := Scalar.eps_pos
  refine ⟨fun part inside => ?_, gaps_insideParts polygon p q, fun t start stop ends edges => ?_⟩
  · obtain ⟨first, last⟩ := ends_of_mem_insideParts inside
    exact ⟨⟨(le_of_mem_positions first).1, (le_of_mem_positions last).2⟩,
      (lt_add_of_pos_right _ positive).trans_le (eps_le_of_mem_insideParts inside)⟩
  · have clear : Clear (2 * Scalar.eps) t ((0 : ℝ) :: polygon.boundaryCrossings p q ++ [1]) := by
      intro k entry
      have far : 10 * Scalar.eps ≤ |t - k| := by
        simp only [List.cons_append, List.mem_cons, List.mem_append, List.not_mem_nil,
          or_false] at entry
        rcases entry with rfl | met | rfl
        · exact ends 0 (by simp)
        · obtain ⟨e, edge, position⟩ := exists_of_mem_boundaryCrossings met
          exact edges e edge k position
        · exact ends 1 (by simp)
      linarith
    rw [← within_insideParts_iff (drawn.framed holes) posed ⟨start.le, stop.le⟩ clear]
    refine exists_congr fun part => and_congr_right fun inside => ?_
    -- the position is no end of a part
    obtain ⟨first, last⟩ := ends_of_mem_insideParts inside
    have off : ∀ k ∈ tidyPositions ((0 : ℝ) :: polygon.boundaryCrossings p q ++ [1]), k ≠ t := by
      rintro k kept rfl
      have gap := clear.tidy k kept
      rw [sub_self, abs_zero] at gap
      linarith
    exact and_congr (off _ first).le_iff_lt (off _ last).symm.le_iff_lt

end Polygon

/-- The way north is outside of the block before it and inside half-way. -/
theorem block_parted : blockOutline.Drawn ∧ blockOutline.HolesInBox ∧
    (∀ e ∈ blockOutline.edges, Posed ⟨0, 0, 1⟩ ⟨0, 30, 4⟩ e) ∧
    (¬∃ part ∈ blockOutline.insideParts ⟨0, 0, 1⟩ ⟨0, 30, 4⟩, part.1 ≤ 1 / 6 ∧ 1 / 6 ≤ part.2) ∧
    ∃ part ∈ blockOutline.insideParts ⟨0, 0, 1⟩ ⟨0, 30, 4⟩, part.1 ≤ 1 / 2 ∧ 1 / 2 ≤ part.2 := by
  have holes : blockOutline.HolesInBox := by
    simp [Polygon.HolesInBox, blockOutline]
  have posed : ∀ e ∈ blockOutline.edges, Posed ⟨0, 0, 1⟩ ⟨0, 30, 4⟩ e :=
    blockDraft_posed.1 block (by simp [blockDraft])
  obtain ⟨-, -, along⟩ := Polygon.insideParts_spec block_drawn holes posed
  have clear : ∀ t : ℝ, t = 1 / 6 ∨ t = 1 / 2 → Clear (10 * Scalar.eps) t [0, 1] ∧
      ∀ e ∈ blockOutline.edges, Clear (10 * Scalar.eps) t
        (Crossing.of ⟨0, 0, 1⟩ ⟨0, 30, 4⟩ e.1 e.2).positions := by
    intro t chosen
    have listed : Clear (10 * Scalar.eps) t [0, 1] ∧ Clear (10 * Scalar.eps) t [1 / 3, 2 / 3] := by
      rcases chosen with rfl | rfl <;> norm_num [Clear, Scalar.eps_eq, abs_of_neg]
    refine ⟨listed.1, fun e edge k position => listed.2 k ?_⟩
    rw [← block_crossings 1 4]
    exact List.mem_flatMap.2 ⟨e, edge, position⟩
  have before : blockOutline.contains (Point.between ⟨0, 0, 1⟩ ⟨0, 30, 4⟩ (1 / 6)) = false := by
    rw [← Bool.not_eq_true]
    norm_num [Point.between, block_contains]
  have within : blockOutline.contains (Point.between ⟨0, 0, 1⟩ ⟨0, 30, 4⟩ (1 / 2)) = true := by
    norm_num [Point.between, block_contains]
  refine ⟨block_drawn, holes, posed, ?_, ?_⟩
  · rw [along (1 / 6) (by norm_num) (by norm_num) (clear _ (.inl rfl)).1 (clear _ (.inl rfl)).2,
      before]
    exact Bool.false_ne_true
  · exact (along (1 / 2) (by norm_num) (by norm_num) (clear _ (.inr rfl)).1
      (clear _ (.inr rfl)).2).2 within

end RoadNoise
