/-
# RoadNoise.Proofs.Inside -- the parts of a segment inside an outline

`Polygon.insideParts` cuts a segment at its tidied boundary positions, keeps the
pieces whose middle is inside and joins those that continue each other.  Every part
therefore is at least the tolerance long, and an outline without a place of the segment
has parts only where positions stray beyond its ends (`beyond_of_mem_insideParts`).
-/
import RoadNoise.Proofs.Outline
import RoadNoise.Scene.Cut

set_option autoImplicit false

namespace RoadNoise

/-! ## Pieces in order -/

/-- Parts one after the other, each from its start to its end. -/
def Ordered (parts : List (ℝ × ℝ)) : Prop :=
  parts.Pairwise (fun u v => u.2 ≤ v.1) ∧ ∀ u ∈ parts, u.1 ≤ u.2

theorem Ordered.tail {u : ℝ × ℝ} {parts : List (ℝ × ℝ)} (ordered : Ordered (u :: parts)) :
    Ordered parts :=
  ⟨(List.pairwise_cons.1 ordered.1).2, fun v later => ordered.2 v (List.mem_cons_of_mem _ later)⟩

theorem Ordered.filter {parts : List (ℝ × ℝ)} (ordered : Ordered parts) (keep : ℝ × ℝ → Bool) :
    Ordered (parts.filter keep) :=
  ⟨ordered.1.filter keep, fun u kept => ordered.2 u (List.mem_filter.1 kept).1⟩

/-- Joining the first two of some ordered parts leaves them ordered. -/
theorem Ordered.join {a b c d : ℝ} {rest : List (ℝ × ℝ)}
    (ordered : Ordered ((a, b) :: (c, d) :: rest)) : Ordered ((a, d) :: rest) := by
  obtain ⟨pairwise, forwards⟩ := ordered
  obtain ⟨first, pairwise⟩ := List.pairwise_cons.1 pairwise
  obtain ⟨second, pairwise⟩ := List.pairwise_cons.1 pairwise
  have ab : a ≤ b := forwards (a, b) (by simp)
  have bc : b ≤ c := first (c, d) (by simp)
  have cd : c ≤ d := forwards (c, d) (by simp)
  refine ⟨List.pairwise_cons.2 ⟨second, pairwise⟩, ?_⟩
  intro u member
  rcases List.mem_cons.1 member with rfl | later
  · exact ab.trans (bc.trans cd)
  · exact forwards u (by simp [later])

theorem ordered_adjacent {l : List ℝ} (sorted : l.Pairwise (· ≤ ·)) :
    Ordered (Sequence.adjacent l) := by
  induction l with
  | nil => simp [Ordered, Sequence.adjacent]
  | cons a l ih =>
      cases l with
      | nil => simp [Ordered, Sequence.adjacent]
      | cons b l =>
          obtain ⟨first, rest⟩ := List.pairwise_cons.1 sorted
          obtain ⟨pairwise, forwards⟩ := ih rest
          rw [Sequence.adjacent_cons_cons]
          refine ⟨List.pairwise_cons.2 ⟨?_, pairwise⟩, ?_⟩
          · rintro ⟨c, d⟩ later
            rcases List.mem_cons.1 (Sequence.mem_of_mem_adjacent later).1 with rfl | beyond
            · exact le_rfl
            · exact (List.pairwise_cons.1 rest).1 c beyond
          · intro u member
            rcases List.mem_cons.1 member with rfl | later
            · exact first b (by simp)
            · exact forwards u later

/-! ## Joining -/

/-- A joined part begins where one of the parts does and reaches at least as far. -/
theorem exists_of_mem_joinFrom {rest : List (ℝ × ℝ)} {a b x y : ℝ}
    (ordered : Ordered ((a, b) :: rest)) (joined : (x, y) ∈ joinFrom a b rest) :
    ∃ e, (x, e) ∈ (a, b) :: rest ∧ e ≤ y := by
  induction rest generalizing a b with
  | nil =>
      obtain ⟨rfl, rfl⟩ : x = a ∧ y = b := by simpa [joinFrom] using joined
      exact ⟨y, by simp, le_rfl⟩
  | cons next rest ih =>
      obtain ⟨c, d⟩ := next
      rw [joinFrom] at joined
      split at joined
      · obtain ⟨e, member, reach⟩ := ih ordered.join joined
        rcases List.mem_cons.1 member with first | later
        · obtain ⟨rfl, rfl⟩ := Prod.mk.inj first
          have be : b ≤ c := (List.pairwise_cons.1 ordered.1).1 (c, e) (by simp)
          have ce : c ≤ e := ordered.2 (c, e) (by simp)
          exact ⟨b, by simp, be.trans (ce.trans reach)⟩
        · exact ⟨e, by simp [later], reach⟩
      · rcases List.mem_cons.1 joined with first | later
        · obtain ⟨rfl, rfl⟩ := Prod.mk.inj first
          exact ⟨y, by simp, le_rfl⟩
        · obtain ⟨e, member, reach⟩ := ih ordered.tail later
          exact ⟨e, List.mem_cons_of_mem _ member, reach⟩

theorem exists_of_mem_joinParts {parts : List (ℝ × ℝ)} {x y : ℝ} (ordered : Ordered parts)
    (joined : (x, y) ∈ joinParts parts) : ∃ e, (x, e) ∈ parts ∧ e ≤ y := by
  cases parts with
  | nil => simp [joinParts] at joined
  | cons part rest => exact exists_of_mem_joinFrom ordered joined

/-- Joining parts that all end by `lo` or begin at `hi` bridges no wider gap than the
tolerance. -/
theorem beyond_of_mem_joinFrom {lo hi : ℝ} (wide : lo + Scalar.eps ≤ hi)
    {rest : List (ℝ × ℝ)} {a b : ℝ} {part : ℝ × ℝ}
    (beyond : ∀ u ∈ (a, b) :: rest, u.2 ≤ lo ∨ hi ≤ u.1) (joined : part ∈ joinFrom a b rest) :
    part.2 ≤ lo ∨ hi ≤ part.1 := by
  induction rest generalizing a b with
  | nil =>
      obtain rfl : part = (a, b) := by simpa [joinFrom] using joined
      exact beyond _ (by simp)
  | cons next rest ih =>
      obtain ⟨c, d⟩ := next
      have first : b ≤ lo ∨ hi ≤ a := beyond (a, b) (by simp)
      have second : d ≤ lo ∨ hi ≤ c := beyond (c, d) (by simp)
      rw [joinFrom] at joined
      split at joined
      · rename_i touching
        refine ih ?_ joined
        intro u member
        rcases List.mem_cons.1 member with rfl | later
        · have gap := abs_lt.1 ((Scalar.near_iff b c).1 touching)
          rcases first with before | after
          · exact .inl (second.resolve_right fun far => by linarith)
          · exact .inr after
        · exact beyond u (by simp [later])
      · rcases List.mem_cons.1 joined with rfl | later
        · exact first
        · exact ih (fun u member => beyond u (List.mem_cons_of_mem _ member)) later

theorem beyond_of_mem_joinParts {lo hi : ℝ} (wide : lo + Scalar.eps ≤ hi)
    {parts : List (ℝ × ℝ)} {part : ℝ × ℝ} (beyond : ∀ u ∈ parts, u.2 ≤ lo ∨ hi ≤ u.1)
    (joined : part ∈ joinParts parts) : part.2 ≤ lo ∨ hi ≤ part.1 := by
  cases parts with
  | nil => simp [joinParts] at joined
  | cons first rest => exact beyond_of_mem_joinFrom wide beyond joined

/-! ## Parts inside an outline -/

theorem pairwise_tidyPositions (ts : List ℝ) :
    (tidyPositions ts).Pairwise fun a b => a + Scalar.eps ≤ b :=
  Sequence.pairwise_gap_thin (Sequence.pairwise_sortOn_order ts)

/-- Positions that keep apart are only put in order. -/
theorem tidyPositions_eq {l m : List ℝ} (perm : l.Perm m)
    (gaps : m.Pairwise fun a b => a + Scalar.eps ≤ b) : tidyPositions l = m := by
  have sorted : m.Pairwise (· ≤ ·) := gaps.imp fun gap => by linarith [Scalar.eps_pos]
  rw [tidyPositions, Sequence.sortOn_order_eq perm sorted]
  refine Sequence.thin_eq_self (gaps.imp fun {a b} gap => ?_)
  rw [Scalar.near_eq_false_iff]
  exact (le_sub_iff_add_le'.2 gap).trans (le_abs_self _)

theorem mem_of_mem_tidyPositions {ts : List ℝ} {t : ℝ} (kept : t ∈ tidyPositions ts) : t ∈ ts := by
  simpa using Sequence.mem_of_mem_thin kept

theorem le_of_gap {l : List ℝ} (gaps : l.Pairwise fun a b => a + Scalar.eps ≤ b) :
    l.Pairwise (· ≤ ·) :=
  gaps.imp fun gap => by
    have := Scalar.eps_pos
    linarith

/-! ## Where crossings lie -/

/-- Crossings lie on the segment, or beyond an end by no more than the tolerance. -/
theorem Crossing.le_of_mem_positions {p q a b : Point ℝ} {t : ℝ}
    (met : t ∈ (Crossing.of p q a b).positions) : -Scalar.eps ≤ t ∧ t ≤ 1 + Scalar.eps := by
  have positive := Scalar.eps_pos
  unfold Crossing.of at met
  dsimp only at met
  split at met
  · unfold ofParallel at met
    dsimp only at met
    split_ifs at met with apart beyond
    · simp [positions] at met
    · simp [positions] at met
    · -- the overlap begins at 0 or later and ends at 1 or before, but may do so out of order
      have first := le_max_right
        (min ((a - p).dot (q - p) / (q - p).dot (q - p))
          ((b - p).dot (q - p) / (q - p).dot (q - p)))
        (0 : ℝ)
      have last := min_le_right
        (max ((a - p).dot (q - p) / (q - p).dot (q - p))
          ((b - p).dot (q - p) / (q - p).dot (q - p)))
        (1 : ℝ)
      rw [not_lt] at beyond
      simp only [positions, List.mem_cons, List.not_mem_nil, or_false] at met
      rcases met with rfl | rfl
      · exact ⟨by linarith, by linarith⟩
      · exact ⟨by linarith, by linarith⟩
  · split_ifs at met
    · obtain rfl : t = _ := by simpa [positions] using met
      have above := Scalar.le_clamp ((a - p).cross (b - a) / (q - p).cross (b - a)) zero_le_one
      have below := Scalar.clamp_le ((a - p).cross (b - a) / (q - p).cross (b - a)) zero_le_one
      exact ⟨by linarith, by linarith⟩
    · simp [positions] at met

namespace Polygon

variable {polygon : Polygon ℝ} {p q : Point ℝ}

theorem exists_of_mem_boundaryCrossings {t : ℝ} (met : t ∈ polygon.boundaryCrossings p q) :
    ∃ e ∈ polygon.edges, t ∈ (Crossing.of p q e.1 e.2).positions := by
  unfold boundaryCrossings at met
  split at met
  · have entry := Sequence.mem_of_mem_thin met
    rwa [Sequence.mem_sortOn, List.mem_flatMap] at entry
  · simp at met

theorem le_of_mem_boundaryCrossings {t : ℝ} (met : t ∈ polygon.boundaryCrossings p q) :
    -Scalar.eps ≤ t ∧ t ≤ 1 + Scalar.eps := by
  obtain ⟨_, -, position⟩ := exists_of_mem_boundaryCrossings met
  exact Crossing.le_of_mem_positions position

theorem le_of_mem_positions {t : ℝ}
    (position : t ∈ tidyPositions ((0 : ℝ) :: polygon.boundaryCrossings p q ++ [1])) :
    -Scalar.eps ≤ t ∧ t ≤ 1 + Scalar.eps := by
  have positive := Scalar.eps_pos
  have entry := mem_of_mem_tidyPositions position
  simp only [List.cons_append, List.mem_cons, List.mem_append, List.not_mem_nil,
    or_false] at entry
  rcases entry with rfl | met | rfl
  · exact ⟨by linarith, by linarith⟩
  · exact le_of_mem_boundaryCrossings met
  · exact ⟨by linarith, by linarith⟩

/-- A part inside an outline begins where some piece does and reaches at least as far. -/
theorem exists_piece_of_mem_insideParts {x y : ℝ} (inside : (x, y) ∈ polygon.insideParts p q) :
    ∃ e, (x, e) ∈ Sequence.adjacent
      (tidyPositions ((0 : ℝ) :: polygon.boundaryCrossings p q ++ [1])) ∧ e ≤ y := by
  have gaps := pairwise_tidyPositions ((0 : ℝ) :: polygon.boundaryCrossings p q ++ [1])
  obtain ⟨e, kept, reach⟩ :=
    exists_of_mem_joinParts ((ordered_adjacent (le_of_gap gaps)).filter _) inside
  exact ⟨e, (List.mem_filter.1 kept).1, reach⟩

/-- A part inside an outline is at least the tolerance long. -/
theorem eps_le_of_mem_insideParts {part : ℝ × ℝ} (inside : part ∈ polygon.insideParts p q) :
    part.1 + Scalar.eps ≤ part.2 := by
  obtain ⟨x, y⟩ := part
  obtain ⟨e, piece, reach⟩ := exists_piece_of_mem_insideParts inside
  exact (Sequence.pairwise_of_mem_adjacent (pairwise_tidyPositions _) piece).trans reach

/-- A part inside an outline begins before the end of the segment and ends after its start. -/
theorem reaches_of_mem_insideParts {part : ℝ × ℝ} (inside : part ∈ polygon.insideParts p q) :
    part.1 ≤ 1 ∧ 0 ≤ part.2 := by
  obtain ⟨x, y⟩ := part
  obtain ⟨e, piece, reach⟩ := exists_piece_of_mem_insideParts inside
  have long := Sequence.pairwise_of_mem_adjacent (pairwise_tidyPositions _) piece
  obtain ⟨first, second⟩ := Sequence.mem_of_mem_adjacent piece
  have start := (le_of_mem_positions first).1
  have stop := (le_of_mem_positions second).2
  exact ⟨by linarith, by linarith⟩

/-- An outline that holds no place of a segment has parts only within the tolerance of
an end of the segment. -/
theorem beyond_of_mem_insideParts {part : ℝ × ℝ} (inside : part ∈ polygon.insideParts p q)
    (apart : ∀ t, 0 ≤ t → t ≤ 1 → polygon.contains (Point.between p q t) = false) :
    part.2 ≤ Scalar.eps ∨ 1 - Scalar.eps ≤ part.1 := by
  refine beyond_of_mem_joinParts ?_ ?_ inside
  · rw [Scalar.eps_eq]
    norm_num
  · rintro ⟨c, d⟩ piece
    obtain ⟨pair, middle⟩ := List.mem_filter.1 piece
    obtain ⟨first, second⟩ := Sequence.mem_of_mem_adjacent pair
    have start := (le_of_mem_positions first).1
    have stop := (le_of_mem_positions second).2
    simp only at middle start stop ⊢
    by_contra! between
    have held := apart (0.5 * (c + d)) (by linarith) (by linarith)
    rw [middle] at held
    exact Bool.noConfusion held

end Polygon

end RoadNoise
