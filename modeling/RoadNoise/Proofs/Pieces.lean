/-
# RoadNoise.Proofs.Pieces -- a piece is inside as a whole

Boundary positions are tidied before they cut a segment, so a place where a segment goes
in or out may be off the cut by the tolerance twice over.  Away from the cuts nothing goes
in or out: a place is inside exactly when the middle of its piece is
(`contains_eq_middle`), and so exactly when one of the inside parts holds its position
(`exists_part_iff`).
-/
import RoadNoise.Proofs.Inside
import RoadNoise.Proofs.Parity

set_option autoImplicit false

namespace RoadNoise

/-! ## Pieces between positions -/

namespace Sequence

theorem exists_adjacent {l : List ℝ} (sorted : l.Pairwise (· ≤ ·)) {x y t : ℝ} (first : x ∈ l)
    (before : x ≤ t) (second : y ∈ l) (after : t < y) :
    ∃ a b, (a, b) ∈ adjacent l ∧ a ≤ t ∧ t < b := by
  induction l generalizing x with
  | nil => simp at first
  | cons a l ih =>
      have least : a ≤ t := by
        rcases List.mem_cons.1 first with rfl | later
        · exact before
        · exact ((List.pairwise_cons.1 sorted).1 x later).trans before
      cases l with
      | nil =>
          obtain rfl := List.mem_singleton.1 second
          exact absurd least after.not_ge
      | cons b l =>
          by_cases inside : t < b
          · exact ⟨a, b, by simp [adjacent_cons_cons], least, inside⟩
          · have later : y ∈ b :: l := by
              rcases List.mem_cons.1 second with rfl | later
              · exact absurd least after.not_ge
              · exact later
            obtain ⟨c, d, pair, bounds⟩ :=
              ih (List.pairwise_cons.1 sorted).2 List.mem_cons_self (not_lt.1 inside) later
            exact ⟨c, d, by rw [adjacent_cons_cons]; exact List.mem_cons_of_mem _ pair, bounds⟩

theorem le_or_le_of_mem_adjacent {l : List ℝ} (sorted : l.Pairwise (· ≤ ·)) {a b k : ℝ}
    (pair : (a, b) ∈ adjacent l) (entry : k ∈ l) : k ≤ a ∨ b ≤ k := by
  induction l with
  | nil => simp at entry
  | cons c l ih =>
      cases l with
      | nil => simp [adjacent] at pair
      | cons d l =>
          obtain ⟨least, rest⟩ := List.pairwise_cons.1 sorted
          rw [adjacent_cons_cons, List.mem_cons] at pair
          rcases pair with first | later
          · obtain ⟨rfl, rfl⟩ := Prod.mk.inj first
            rcases List.mem_cons.1 entry with rfl | entry
            · exact .inl le_rfl
            · rcases List.mem_cons.1 entry with rfl | entry
              · exact .inr le_rfl
              · exact .inr ((List.pairwise_cons.1 rest).1 k entry)
          · rcases List.mem_cons.1 entry with rfl | entry
            · exact .inl (least a (mem_of_mem_adjacent later).1)
            · exact ih rest later entry

end Sequence

/-- Positions that keep apart are the same or at least the tolerance apart. -/
theorem eq_or_gap {l : List ℝ} (gaps : l.Pairwise fun a b => a + Scalar.eps ≤ b) {x y : ℝ}
    (first : x ∈ l) (second : y ∈ l) (ordered : x ≤ y) : x = y ∨ x + Scalar.eps ≤ y := by
  have positive := Scalar.eps_pos
  induction l with
  | nil => simp at first
  | cons a l ih =>
      obtain ⟨least, gaps⟩ := List.pairwise_cons.1 gaps
      rcases List.mem_cons.1 first with rfl | later
      · rcases List.mem_cons.1 second with rfl | later
        · exact .inl rfl
        · exact .inr (least y later)
      · rcases List.mem_cons.1 second with rfl | later'
        · linarith [least x later]
        · exact ih gaps later later'

theorem exists_near_of_mem {ts : List ℝ} {t : ℝ} (entry : t ∈ ts) :
    ∃ k ∈ tidyPositions ts, |t - k| < Scalar.eps := by
  have sorted : t ∈ Sequence.sortOn Scalar.order ts := Sequence.mem_sortOn.2 entry
  obtain ⟨k, kept, near⟩ := Sequence.exists_same_of_mem Scalar.near
    (fun b => by simp [Scalar.eps_pos]) sorted
  exact ⟨k, kept, (Scalar.near_iff t k).1 near⟩

/-- Parts that continue each other or keep apart, each with a length. -/
def Wide (parts : List (ℝ × ℝ)) : Prop :=
  parts.Pairwise (fun u v => u.2 = v.1 ∨ u.2 + Scalar.eps ≤ v.1) ∧ ∀ u ∈ parts, u.1 < u.2

theorem wide_adjacent {l : List ℝ} (gaps : l.Pairwise fun a b => a + Scalar.eps ≤ b) :
    Wide (Sequence.adjacent l) := by
  refine ⟨(ordered_adjacent (le_of_gap gaps)).1.imp_of_mem fun {u v} first second ordered => ?_,
    fun u piece => ?_⟩
  · exact eq_or_gap gaps (Sequence.mem_of_mem_adjacent first).2
      (Sequence.mem_of_mem_adjacent second).1 ordered
  · exact (lt_add_of_pos_right _ Scalar.eps_pos).trans_le
      (Sequence.pairwise_of_mem_adjacent gaps piece)

theorem Wide.filter {parts : List (ℝ × ℝ)} (wide : Wide parts) (keep : ℝ × ℝ → Bool) :
    Wide (parts.filter keep) :=
  ⟨wide.1.filter keep, fun u kept => wide.2 u (List.mem_filter.1 kept).1⟩

theorem Wide.ordered {parts : List (ℝ × ℝ)} (wide : Wide parts) : Ordered parts := by
  refine ⟨wide.1.imp fun {u v} next => ?_, fun u part => (wide.2 u part).le⟩
  rcases next with meets | gap
  · exact meets.le
  · linarith [Scalar.eps_pos]

/-- Joining the first two of some parts that continue each other keeps the parts wide. -/
theorem Wide.join {a b d : ℝ} {rest : List (ℝ × ℝ)} (wide : Wide ((a, b) :: (b, d) :: rest)) :
    Wide ((a, d) :: rest) := by
  obtain ⟨pairwise, forwards⟩ := wide
  refine ⟨List.pairwise_cons.2 (List.pairwise_cons.1 (List.pairwise_cons.1 pairwise).2), ?_⟩
  intro u member
  rcases List.mem_cons.1 member with rfl | later
  · exact (forwards (a, b) (by simp)).trans (forwards (b, d) (by simp))
  · exact forwards u (by simp [later])

theorem Wide.tail {part : ℝ × ℝ} {rest : List (ℝ × ℝ)} (wide : Wide (part :: rest)) : Wide rest :=
  ⟨(List.pairwise_cons.1 wide.1).2, fun u later => wide.2 u (List.mem_cons_of_mem _ later)⟩

/-- Parts that continue each other are told from parts that do not by the tolerance. -/
theorem Wide.near_iff {a b c d : ℝ} {rest : List (ℝ × ℝ)} (wide : Wide ((a, b) :: (c, d) :: rest)) :
    Scalar.near b c = true ↔ b = c := by
  rw [Scalar.near_iff]
  constructor
  · intro close
    refine ((List.pairwise_cons.1 wide.1).1 (c, d) (by simp)).resolve_right fun gap => ?_
    dsimp only at gap
    linarith [(abs_lt.1 close).1]
  · rintro rfl
    rw [sub_self, abs_zero]
    exact Scalar.eps_pos

/-- The position lies in one of the parts, off their ends. -/
def Within (t : ℝ) (parts : List (ℝ × ℝ)) : Prop := ∃ part ∈ parts, part.1 < t ∧ t < part.2

theorem within_cons_iff {t : ℝ} {part : ℝ × ℝ} {parts : List (ℝ × ℝ)} :
    Within t (part :: parts) ↔ (part.1 < t ∧ t < part.2) ∨ Within t parts := by
  simp [Within]

/-- Joining parts bridges no gap: it only takes in the ends between parts that continue
each other. -/
theorem within_joinFrom_iff {t a b : ℝ} {rest : List (ℝ × ℝ)} (wide : Wide ((a, b) :: rest))
    (off : ∀ u ∈ (a, b) :: rest, t ≠ u.2) :
    Within t (joinFrom a b rest) ↔ Within t ((a, b) :: rest) := by
  induction rest generalizing a b with
  | nil => rfl
  | cons next rest ih =>
      obtain ⟨c, d⟩ := next
      have ab : a < b := wide.2 (a, b) (by simp)
      have cd : c < d := wide.2 (c, d) (by simp)
      have offB : t ≠ b := off (a, b) (by simp)
      rw [joinFrom]
      split
      · rename_i touching
        obtain rfl := wide.near_iff.1 touching
        have off' : ∀ u ∈ (a, d) :: rest, t ≠ u.2 := by
          intro u member
          rcases List.mem_cons.1 member with rfl | later
          · exact off (b, d) (by simp)
          · exact off u (by simp [later])
        rw [ih wide.join off', within_cons_iff, within_cons_iff, within_cons_iff, ← or_assoc]
        refine or_congr_left ⟨fun inside => ?_, fun inside => ?_⟩
        · rcases lt_or_gt_of_ne offB with before | after
          · exact .inl ⟨inside.1, before⟩
          · exact .inr ⟨after, inside.2⟩
        · rcases inside with inside | inside
          · exact ⟨inside.1, inside.2.trans cd⟩
          · exact ⟨ab.trans inside.1, inside.2⟩
      · rw [within_cons_iff, within_cons_iff, ih wide.tail fun u later =>
          off u (List.mem_cons_of_mem _ later)]

theorem within_joinParts_iff {t : ℝ} {parts : List (ℝ × ℝ)} (wide : Wide parts)
    (off : ∀ u ∈ parts, t ≠ u.2) : Within t (joinParts parts) ↔ Within t parts := by
  cases parts with
  | nil => rfl
  | cons part rest => exact within_joinFrom_iff wide off

/-! ## Pieces and outlines -/

/-- The relative position keeps its distance from all the others. -/
def Clear (margin t : ℝ) (positions : List ℝ) : Prop := ∀ k ∈ positions, margin ≤ |t - k|

theorem Clear.tidy {margin t : ℝ} {raw : List ℝ} (clear : Clear margin t raw) :
    Clear margin t (tidyPositions raw) :=
  fun k kept => clear k (mem_of_mem_tidyPositions kept)

/-- A clear position between 0 and 1 lies well inside a piece. -/
theorem exists_piece {raw : List ℝ} (zero : 0 ∈ raw) (one : 1 ∈ raw) {t : ℝ} (start : 0 ≤ t)
    (stop : t ≤ 1) (clear : Clear (2 * Scalar.eps) t raw) :
    ∃ a b, (a, b) ∈ Sequence.adjacent (tidyPositions raw) ∧
      a + 2 * Scalar.eps ≤ t ∧ t + 2 * Scalar.eps ≤ b := by
  have positive := Scalar.eps_pos
  obtain ⟨first, kept, near⟩ := exists_near_of_mem zero
  obtain ⟨last, kept', near'⟩ := exists_near_of_mem one
  have off := clear 0 zero
  have off' := clear 1 one
  rw [sub_zero, abs_of_nonneg start] at off
  rw [abs_of_nonpos (by linarith)] at off'
  rw [abs_lt] at near near'
  obtain ⟨a, b, piece, before, after⟩ :=
    Sequence.exists_adjacent (le_of_gap (pairwise_tidyPositions raw)) kept
      (show first ≤ t by linarith) kept' (by linarith)
  obtain ⟨isFirst, isSecond⟩ := Sequence.mem_of_mem_adjacent piece
  have left := clear.tidy a isFirst
  have right := clear.tidy b isSecond
  rw [abs_of_nonneg (by linarith)] at left
  rw [abs_of_nonpos (by linarith)] at right
  exact ⟨a, b, piece, by linarith, by linarith⟩

namespace Polygon

variable {polygon : Polygon ℝ} {p q : Point ℝ}

/-- Well inside a piece, all is inside or all is outside, as its middle. -/
theorem contains_eq_middle (framed : polygon.Framed) (posed : ∀ e ∈ polygon.edges, Posed p q e)
    {raw : List ℝ} (listed : ∀ k ∈ polygon.boundaryCrossings p q, k ∈ raw)
    (bounds : ∀ k ∈ raw, -Scalar.eps ≤ k ∧ k ≤ 1 + Scalar.eps) {a b t : ℝ}
    (piece : (a, b) ∈ Sequence.adjacent (tidyPositions raw)) (inside : 0 ≤ t ∧ t ≤ 1)
    (before : a + 2 * Scalar.eps ≤ t) (after : t + 2 * Scalar.eps ≤ b) :
    polygon.contains (Point.between p q t)
      = polygon.contains (Point.between p q (0.5 * (a + b))) := by
  have positive := Scalar.eps_pos
  obtain ⟨isFirst, isSecond⟩ := Sequence.mem_of_mem_adjacent piece
  have low := (bounds a (mem_of_mem_tidyPositions isFirst)).1
  have high := (bounds b (mem_of_mem_tidyPositions isSecond)).2
  refine contains_steady framed fun u onWay e edge on => ?_
  -- on the way between the two, positions stay on the segment and well inside the piece
  have wellInside : ∀ v : ℝ, (0 ≤ v ∧ v ≤ 1) → a + 2 * Scalar.eps ≤ v → v + 2 * Scalar.eps ≤ b →
      v = u → (q - p).cross (e.2 - e.1) = 0 := by
    rintro v ⟨start, stop⟩ before after rfl
    refine (posed e edge).resolve_left fun transversal => ?_
    obtain ⟨k, crossing, near⟩ := exists_crossing framed edge transversal start stop on
    obtain ⟨k', kept, near'⟩ := exists_near_of_mem (listed k crossing)
    rw [abs_lt] at near near'
    rcases Sequence.le_or_le_of_mem_adjacent (le_of_gap (pairwise_tidyPositions raw)) piece kept
      with left | right
    · linarith
    · linarith
  obtain ⟨start, stop⟩ := onWay
  refine wellInside u ⟨?_, ?_⟩ ?_ ?_ rfl
  · exact (le_inf inside.1 (by linarith)).trans start
  · exact stop.trans (sup_le inside.2 (by linarith))
  · exact (le_inf before (by linarith)).trans start
  · have top := stop.trans (sup_le (show t ≤ b - 2 * Scalar.eps by linarith)
      (show 0.5 * (a + b) ≤ b - 2 * Scalar.eps by linarith))
    linarith

/-- A place off the boundary crossings is inside exactly when its position is in one of
the inside parts. -/
theorem within_insideParts_iff (framed : polygon.Framed)
    (posed : ∀ e ∈ polygon.edges, Posed p q e) {t : ℝ} (inside : 0 ≤ t ∧ t ≤ 1)
    (clear : Clear (2 * Scalar.eps) t ((0 : ℝ) :: polygon.boundaryCrossings p q ++ [1])) :
    Within t (polygon.insideParts p q) ↔ polygon.contains (Point.between p q t) = true := by
  have positive := Scalar.eps_pos
  have gaps := pairwise_tidyPositions ((0 : ℝ) :: polygon.boundaryCrossings p q ++ [1])
  have bounds : ∀ k ∈ (0 : ℝ) :: polygon.boundaryCrossings p q ++ [1],
      -Scalar.eps ≤ k ∧ k ≤ 1 + Scalar.eps := by
    intro k entry
    simp only [List.cons_append, List.mem_cons, List.mem_append, List.not_mem_nil,
      or_false] at entry
    rcases entry with rfl | met | rfl
    · exact ⟨by linarith, by linarith⟩
    · exact le_of_mem_boundaryCrossings met
    · exact ⟨by linarith, by linarith⟩
  have listed : ∀ k ∈ polygon.boundaryCrossings p q,
      k ∈ (0 : ℝ) :: polygon.boundaryCrossings p q ++ [1] := by
    intro k met
    simp [met]
  have offEnds : ∀ u ∈ Sequence.adjacent
      (tidyPositions ((0 : ℝ) :: polygon.boundaryCrossings p q ++ [1])),
      2 * Scalar.eps ≤ |t - u.1| ∧ 2 * Scalar.eps ≤ |t - u.2| := fun u pair =>
    ⟨clear.tidy _ (Sequence.mem_of_mem_adjacent pair).1,
      clear.tidy _ (Sequence.mem_of_mem_adjacent pair).2⟩
  rw [insideParts, within_joinParts_iff ((wide_adjacent gaps).filter _) fun u kept same => ?_]
  · constructor
    · rintro ⟨⟨a, b⟩, kept, before, after⟩
      obtain ⟨piece, middle⟩ := List.mem_filter.1 kept
      obtain ⟨left, right⟩ := offEnds _ piece
      dsimp only at before after left right
      rw [abs_of_pos (by linarith)] at left
      rw [abs_of_neg (by linarith)] at right
      rw [contains_eq_middle framed posed listed bounds piece inside (by linarith) (by linarith)]
      exact middle
    · intro holds
      obtain ⟨a, b, piece, before, after⟩ :=
        exists_piece (by simp) (by simp) inside.1 inside.2 clear
      rw [contains_eq_middle framed posed listed bounds piece inside before after] at holds
      exact ⟨(a, b), List.mem_filter.2 ⟨piece, holds⟩, by linarith, by linarith⟩
  · have off := (offEnds u (List.mem_filter.1 kept).1).2
    rw [same, sub_self, abs_zero] at off
    linarith

end Polygon

end RoadNoise
