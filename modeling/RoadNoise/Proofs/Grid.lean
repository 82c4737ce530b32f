/-
# RoadNoise.Proofs.Grid -- a grid misses nothing

The items of a cell are those whose rectangle reaches into it, in increasing order
(`items_withStep`).  A query by a point or by a rectangle answers exactly with the
items whose cells meet its own, and a query along a segment has every item whose
rectangle covers a place of the segment (`queries_exact`), whatever the direction:
between the ends of a column the segment's rows run from one end to the other, because
a straight line rises or falls as a whole.  Nothing is found along a segment that is not
found in its rectangle (`mem_inBox_of_mem_along`).
-/
import RoadNoise.Proofs.Outline
import RoadNoise.Scene.Grid

set_option autoImplicit false

namespace RoadNoise

/-! ## Blocks -/

namespace Block

@[simp] theorem mem_cells {b : Block} {i j : Int} :
    (i, j) ∈ b.cells ↔ (b.imin ≤ i ∧ i ≤ b.imax) ∧ b.jmin ≤ j ∧ j ≤ b.jmax := by
  simp only [cells, List.mem_flatMap, List.mem_map, Sequence.mem_between, Prod.mk.injEq]
  constructor
  · rintro ⟨k, column, l, row, rfl, rfl⟩
    exact ⟨column, row⟩
  · rintro ⟨column, row⟩
    exact ⟨i, column, j, row, rfl, rfl⟩

theorem nodup_between (lo hi : Int) : (Sequence.between lo hi).Nodup := by
  refine List.Nodup.map ?_ List.nodup_range
  intro m n same
  simpa using same

theorem nodup_cells (b : Block) : b.cells.Nodup := by
  refine List.nodup_flatMap.2 ⟨fun i _ => ?_, (nodup_between b.imin b.imax).imp ?_⟩
  · exact (nodup_between b.jmin b.jmax).map fun j k same => (Prod.mk.inj same).2
  · intro i k apart c left right
    obtain ⟨j, -, rfl⟩ := List.mem_map.1 left
    obtain ⟨l, -, same⟩ := List.mem_map.1 right
    exact apart (Prod.mk.inj same).1.symm

theorem mem_cells_meet {a b : Block} {c : Cell} :
    c ∈ (a.meet b).cells ↔ c ∈ a.cells ∧ c ∈ b.cells := by
  obtain ⟨i, j⟩ := c
  simp only [mem_cells, meet, le_inf_iff, sup_le_iff]
  tauto

theorem mem_cells_join_left {a : Block} (b : Block) {c : Cell} (cell : c ∈ a.cells) :
    c ∈ (a.join b).cells := by
  obtain ⟨i, j⟩ := c
  simp only [mem_cells, join] at cell ⊢
  omega

theorem mem_cells_join_right (a : Block) {b : Block} {c : Cell} (cell : c ∈ b.cells) :
    c ∈ (a.join b).cells := by
  obtain ⟨i, j⟩ := c
  simp only [mem_cells, join] at cell ⊢
  omega

theorem isEmpty_eq_false {b : Block} {c : Cell} (cell : c ∈ b.cells) : b.isEmpty = false := by
  obtain ⟨i, j⟩ := c
  rw [mem_cells] at cell
  simp only [isEmpty, Bool.or_eq_false_iff, decide_eq_false_iff_not]
  omega

end Block

namespace Grid

/-! ## What a cell holds -/

theorem getD_enter (cells : Std.HashMap Cell (List Nat)) (item : Nat) (block : Block) (c : Cell) :
    (enter cells item block).getD c []
      = if c ∈ block.cells then item :: cells.getD c [] else cells.getD c [] := by
  have fold : ∀ (visited : List Cell) (m : Std.HashMap Cell (List Nat)), visited.Nodup →
      (visited.foldl (fun m c => m.insert c (item :: m.getD c [])) m).getD c []
        = if c ∈ visited then item :: m.getD c [] else m.getD c [] := by
    intro visited
    induction visited with
    | nil => simp
    | cons first rest ih =>
        intro m nodup
        obtain ⟨fresh, nodup⟩ := List.nodup_cons.1 nodup
        rw [List.foldl_cons, ih _ nodup, Std.HashMap.getD_insert]
        by_cases here : first = c
        · subst here
          simp [fresh]
        · simp [here, Ne.symm here]
  exact fold block.cells cells block.nodup_cells

variable (step : ℝ) (boxes : List (Box ℝ))

/-- A cell holds the items whose block it belongs to, in increasing order. -/
theorem items_withStep (c : Cell) :
    (withStep step boxes).items c
      = (((boxes.map (blockOf step)).zipIdx).filter fun e => decide (c ∈ e.1.cells)).map
          Prod.snd := by
  have fold : ∀ entries : List (Block × Nat),
      (entries.foldr (fun e m => enter m e.2 e.1) (∅ : Std.HashMap Cell (List Nat))).getD c []
        = (entries.filter fun e => decide (c ∈ e.1.cells)).map Prod.snd := by
    intro entries
    induction entries with
    | nil => simp
    | cons e entries ih =>
        rw [List.foldr_cons, getD_enter, ih, List.filter_cons]
        by_cases inside : c ∈ e.1.cells <;> simp [inside]
  exact fold _

variable {step boxes}

theorem mem_items {c : Cell} {k : Nat} :
    k ∈ (withStep step boxes).items c
      ↔ ∃ box, boxes[k]? = some box ∧ c ∈ (blockOf step box).cells := by
  rw [items_withStep]
  simp only [List.mem_map, List.mem_filter, decide_eq_true_eq, Prod.exists, exists_eq_right,
    List.mk_mem_zipIdx_iff_getElem?, List.getElem?_map, Option.map_eq_some_iff]
  constructor
  · rintro ⟨block, ⟨box, entry, rfl⟩, cell⟩
    exact ⟨box, entry, cell⟩
  · rintro ⟨box, entry, cell⟩
    exact ⟨blockOf step box, ⟨box, entry, rfl⟩, cell⟩

theorem pairwise_items (c : Cell) : ((withStep step boxes).items c).Pairwise (· < ·) := by
  rw [items_withStep]
  have ordered : ((boxes.map (blockOf step)).zipIdx.map Prod.snd).Pairwise (· < ·) := by
    rw [List.zipIdx_map_snd]
    exact List.pairwise_lt_range'
  exact ordered.sublist (List.filter_sublist.map Prod.snd)

/-! ## Queries by a point and by a rectangle -/

theorem mem_atPoint {p : Point ℝ} {k : Nat} :
    k ∈ (withStep step boxes).atPoint p
      ↔ ∃ box, boxes[k]? = some box ∧ (line step p.x, line step p.y) ∈ (blockOf step box).cells :=
  mem_items

/-- The occupied block has the cells of every item. -/
theorem exists_occupied {k : Nat} {box : Box ℝ} (entry : boxes[k]? = some box) {c : Cell}
    (cell : c ∈ (blockOf step box).cells) :
    ∃ all, (withStep step boxes).occupied = some all ∧ c ∈ all.cells := by
  have fold : ∀ grow : Option Block → Block → Option Block, (∀ b, grow none b = some b) →
      (∀ a b, grow (some a) b = some (a.join b)) →
      ∀ (blocks : List Block) (start : Option Block),
        ((∃ a, start = some a ∧ c ∈ a.cells) ∨ ∃ b ∈ blocks, c ∈ b.cells) →
        ∃ all, blocks.foldl grow start = some all ∧ c ∈ all.cells := by
    intro grow first next blocks
    induction blocks with
    | nil => simp
    | cons b blocks ih =>
        intro start known
        refine ih _ ?_
        rcases known with ⟨a, rfl, inside⟩ | ⟨d, member, inside⟩
        · exact .inl ⟨_, next a b, Block.mem_cells_join_left b inside⟩
        · rcases List.mem_cons.1 member with rfl | later
          · cases start with
            | none => exact .inl ⟨_, first d, inside⟩
            | some a => exact .inl ⟨_, next a d, Block.mem_cells_join_right a inside⟩
          · exact .inr ⟨d, later, inside⟩
  refine fold _ (fun _ => rfl) (fun _ _ => rfl) _ none
    (.inr ⟨blockOf step box, List.mem_filter.2 ⟨?_, ?_⟩, cell⟩)
  · exact List.mem_map.2 ⟨box, List.mem_of_getElem? entry, rfl⟩
  · simp [Block.isEmpty_eq_false cell]

theorem mem_inBox {r : Box ℝ} {k : Nat} :
    k ∈ (withStep step boxes).inBox r
      ↔ ∃ box, boxes[k]? = some box ∧
          ∃ c, c ∈ (blockOf step box).cells ∧ c ∈ (blockOf step r).cells := by
  unfold inBox
  constructor
  · intro found
    split at found
    · simp at found
    · rw [Sequence.mem_ascending, List.mem_flatMap] at found
      obtain ⟨c, visited, item⟩ := found
      obtain ⟨box, entry, cell⟩ := mem_items.1 item
      exact ⟨box, entry, c, cell, (Block.mem_cells_meet.1 visited).1⟩
  · rintro ⟨box, entry, c, cell, queried⟩
    obtain ⟨all, occupied, known⟩ := exists_occupied entry cell
    rw [occupied]
    simp only [Sequence.mem_ascending, List.mem_flatMap]
    exact ⟨c, Block.mem_cells_meet.2 ⟨queried, known⟩, mem_items.2 ⟨box, entry, cell⟩⟩

theorem pairwise_inBox (g : Grid ℝ) (r : Box ℝ) : (g.inBox r).Pairwise (· < ·) := by
  unfold inBox
  split
  · exact List.Pairwise.nil
  · exact Sequence.pairwise_ascending _

/-! ## Rows and columns -/

theorem line_mono (positive : 0 < step) {x y : ℝ} (le : x ≤ y) : line step x ≤ line step y :=
  Int.floor_mono (div_le_div_of_nonneg_right le positive.le)

theorem line_eq_iff (positive : 0 < step) {x : ℝ} {i : Int} :
    line step x = i ↔ i * step ≤ x ∧ x < (i + 1) * step := by
  have floor : ⌊x / step⌋ = i ↔ i ≤ x / step ∧ x / step < i + 1 := Int.floor_eq_iff
  rwa [le_div_iff₀ positive, div_lt_iff₀ positive] at floor

theorem line_nonneg_iff (positive : 0 < step) {x : ℝ} : 0 ≤ line step x ↔ 0 ≤ x := by
  have floor : 0 ≤ ⌊x / step⌋ ↔ 0 ≤ x / step := Int.floor_nonneg
  rwa [le_div_iff₀ positive, zero_mul] at floor

theorem line_mul_le (positive : 0 < step) (x : ℝ) : line step x * step ≤ x :=
  ((line_eq_iff positive).1 rfl).1

theorem lt_line_add_one_mul (positive : 0 < step) (x : ℝ) : x < (line step x + 1) * step :=
  ((line_eq_iff positive).1 rfl).2

/-- The cell of a place belongs to every block whose rectangle covers the place. -/
theorem mem_cells_of_covers (positive : 0 < step) {box : Box ℝ} {p : Point ℝ}
    (covers : box.Covers p) : (line step p.x, line step p.y) ∈ (blockOf step box).cells := by
  obtain ⟨⟨left, right⟩, low, high⟩ := covers
  exact Block.mem_cells.2 ⟨⟨line_mono positive left, line_mono positive right⟩,
    line_mono positive low, line_mono positive high⟩

theorem le_stepFor (boxes : List (Box ℝ)) : 10 ≤ stepFor boxes := by
  cases boxes with
  | nil => exact le_rfl
  | cons b rest => exact le_max_right _ _

theorem stepFor_pos (boxes : List (Box ℝ)) : 0 < stepFor boxes :=
  lt_of_lt_of_le (by norm_num) (le_stepFor boxes)

/-! ## Queries along a segment -/

/-- The height of the line through `p` and `q` over a place of the first axis. -/
noncomputable def heightOver (p q : Point ℝ) (x : ℝ) : ℝ :=
  p.y + (x - p.x) / (q.x - p.x) * (q.y - p.y)

theorem heightOver_between {p q : Point ℝ} (run : q.x - p.x ≠ 0) (t : ℝ) :
    heightOver p q (Point.between p q t).x = (Point.between p q t).y := by
  simp only [heightOver, Point.between]
  field_simp
  ring

/-- A straight line over an interval stays between its heights at the ends. -/
theorem heightOver_mem_ends (p q : Point ℝ) {x0 x x1 : ℝ} (left : x0 ≤ x) (right : x ≤ x1) :
    min (heightOver p q x0) (heightOver p q x1) ≤ heightOver p q x ∧
      heightOver p q x ≤ max (heightOver p q x0) (heightOver p q x1) := by
  have slope : ∀ x, heightOver p q x = p.y + (x - p.x) * ((q.y - p.y) / (q.x - p.x)) := by
    intro x
    rw [heightOver, div_mul_eq_mul_div, mul_div_assoc]
  simp only [slope]
  rcases le_total 0 ((q.y - p.y) / (q.x - p.x)) with up | down
  · constructor
    · exact min_le_of_left_le (by nlinarith)
    · exact le_max_of_le_right (by nlinarith)
  · constructor
    · exact min_le_of_right_le (by nlinarith)
    · exact le_max_of_le_left (by nlinarith)

/-- Over its run a segment is as high as its ends are. -/
theorem heightOver_mem {p q : Point ℝ} {x : ℝ} (run : q.x - p.x ≠ 0) (west : min p.x q.x ≤ x)
    (east : x ≤ max p.x q.x) :
    min p.y q.y ≤ heightOver p q x ∧ heightOver p q x ≤ max p.y q.y := by
  obtain ⟨start, stop⟩ := share_mem run west east
  rw [heightOver, mul_comm]
  exact (Box.ofSegment_covers_between (p := p) (q := q) start stop).2

section Rows

variable (g : Grid ℝ) {p q : Point ℝ}

theorem rows_of_upright (upright : |q.x - p.x| < 1 / 4503599627370496) (xa xb : ℝ) (i : Int) :
    g.rows p q xa xb i
      = Sequence.between (line g.step (min p.y q.y)) (line g.step (max p.y q.y)) := by
  have isUpright : (Scalar.abs (q.x - p.x) < 1 / 4503599627370496) := upright
  simp only [rows, isUpright, decide_true, if_true]

theorem rows_of_slanted (slanted : ¬|q.x - p.x| < 1 / 4503599627370496) (xa xb : ℝ) (i : Int) :
    g.rows p q xa xb i
      = Sequence.between
          (line g.step (min (heightOver p q (max (i * g.step) xa))
            (heightOver p q (min (((i + 1 : Int) : ℝ) * g.step) xb))))
          (line g.step (max (heightOver p q (max (i * g.step) xa))
            (heightOver p q (min (((i + 1 : Int) : ℝ) * g.step) xb)))) := by
  have notUpright : ¬(Scalar.abs (q.x - p.x) < 1 / 4503599627370496) := slanted
  simp only [rows, notUpright, decide_false]
  rfl

theorem run_of_slanted (slanted : ¬|q.x - p.x| < 1 / 4503599627370496) : q.x - p.x ≠ 0 := by
  intro zero
  rw [zero] at slanted
  norm_num at slanted

end Rows

/-- The row of a place on a segment is among the rows visited in its column. -/
theorem mem_rows (positive : 0 < step) (p q : Point ℝ) {t : ℝ} (start : 0 ≤ t) (stop : t ≤ 1) :
    line step (Point.between p q t).y ∈ (withStep step boxes).rows p q (min p.x q.x)
      (max p.x q.x) (line step (Point.between p q t).x) := by
  obtain ⟨⟨left, right⟩, low, high⟩ :=
    Box.ofSegment_covers_between (p := p) (q := q) start stop
  by_cases upright : |q.x - p.x| < 1 / 4503599627370496
  · rw [rows_of_upright _ upright, Sequence.mem_between]
    exact ⟨line_mono positive low, line_mono positive high⟩
  · rw [rows_of_slanted _ upright, Sequence.mem_between,
      ← heightOver_between (run_of_slanted upright) t]
    -- the row is that of a straight line over the column's part of the segment
    have west : max (line step (Point.between p q t).x * step) (min p.x q.x)
        ≤ (Point.between p q t).x := max_le (line_mul_le positive _) left
    have east : (Point.between p q t).x
        ≤ min (((line step (Point.between p q t).x + 1 : Int) : ℝ) * step) (max p.x q.x) := by
      refine le_min ?_ right
      push_cast
      exact (lt_line_add_one_mul positive _).le
    have ends := heightOver_mem_ends p q west east
    exact ⟨line_mono positive ends.1, line_mono positive ends.2⟩

theorem mem_along {g : Grid ℝ} {p q : Point ℝ} {k : Nat} :
    k ∈ g.along p q ↔ ∃ i j, (line g.step (min p.x q.x) ≤ i ∧ i ≤ line g.step (max p.x q.x)) ∧
      j ∈ g.rows p q (min p.x q.x) (max p.x q.x) i ∧ k ∈ g.items (i, j) := by
  simp only [along, Sequence.mem_ascending, List.mem_flatMap, Sequence.mem_between]
  constructor
  · rintro ⟨i, column, j, row, item⟩
    exact ⟨i, j, column, row, item⟩
  · rintro ⟨i, j, column, row, item⟩
    exact ⟨i, column, j, row, item⟩

theorem pairwise_along (g : Grid ℝ) (p q : Point ℝ) : (g.along p q).Pairwise (· < ·) :=
  Sequence.pairwise_ascending _

theorem exists_box_of_mem_along {p q : Point ℝ} {k : Nat}
    (found : k ∈ (withStep step boxes).along p q) : ∃ box, boxes[k]? = some box := by
  obtain ⟨i, j, -, -, item⟩ := mem_along.1 found
  obtain ⟨box, entry, -⟩ := mem_items.1 item
  exact ⟨box, entry⟩

/-- An item whose rectangle covers a place of a segment is found along it. -/
theorem mem_along_of_covers (positive : 0 < step) {k : Nat} {box : Box ℝ}
    (entry : boxes[k]? = some box) {p q : Point ℝ} {t : ℝ} (start : 0 ≤ t) (stop : t ≤ 1)
    (covers : box.Covers (Point.between p q t)) : k ∈ (withStep step boxes).along p q := by
  obtain ⟨⟨left, right⟩, -⟩ := Box.ofSegment_covers_between (p := p) (q := q) start stop
  exact mem_along.2 ⟨_, _, ⟨line_mono positive left, line_mono positive right⟩,
    mem_rows positive p q start stop, mem_items.2 ⟨box, entry, mem_cells_of_covers positive covers⟩⟩

/-- The rows visited in a column are rows of the segment's rectangle. -/
theorem line_le_of_mem_rows (positive : 0 < step) {p q : Point ℝ} {i j : Int}
    (left : line step (min p.x q.x) ≤ i) (right : i ≤ line step (max p.x q.x))
    (row : j ∈ (withStep step boxes).rows p q (min p.x q.x) (max p.x q.x) i) :
    line step (min p.y q.y) ≤ j ∧ j ≤ line step (max p.y q.y) := by
  by_cases upright : |q.x - p.x| < 1 / 4503599627370496
  · rwa [rows_of_upright _ upright, Sequence.mem_between] at row
  · rw [rows_of_slanted _ upright, Sequence.mem_between] at row
    have run := run_of_slanted upright
    have starts : (i : ℝ) * step ≤ max p.x q.x :=
      (mul_le_mul_of_nonneg_right (Int.cast_le.2 right) positive.le).trans (line_mul_le positive _)
    have ends : min p.x q.x ≤ ((i + 1 : Int) : ℝ) * step := by
      refine (lt_line_add_one_mul positive _).le.trans (mul_le_mul_of_nonneg_right ?_ positive.le)
      exact_mod_cast Int.add_le_add_right left 1
    have first := heightOver_mem run (le_max_right ((i : ℝ) * step) _) (max_le starts min_le_max)
    have last := heightOver_mem run (le_min ends min_le_max) (min_le_right _ (max p.x q.x))
    exact ⟨(line_mono positive (le_min first.1 last.1)).trans row.1,
      row.2.trans (line_mono positive (max_le first.2 last.2))⟩

/-- What is found along a segment is found in its rectangle. -/
theorem mem_inBox_of_mem_along (positive : 0 < step) {p q : Point ℝ} {k : Nat}
    (found : k ∈ (withStep step boxes).along p q) :
    k ∈ (withStep step boxes).inBox (Box.ofSegment p q) := by
  obtain ⟨i, j, ⟨left, right⟩, row, item⟩ := mem_along.1 found
  obtain ⟨box, entry, cell⟩ := mem_items.1 item
  have inRows := line_le_of_mem_rows positive left right row
  exact mem_inBox.2 ⟨box, entry, (i, j), cell, Block.mem_cells.2 ⟨⟨left, right⟩, inRows⟩⟩

/-! ## All queries -/

/-- What the queries of a grid answer with, whatever the side of its cells. -/
theorem queries_exact (positive : 0 < step) (boxes : List (Box ℝ)) :
    (∀ r, ((withStep step boxes).inBox r).Pairwise (· < ·) ∧
      ∀ k, k ∈ (withStep step boxes).inBox r ↔ ∃ box, boxes[k]? = some box ∧
        ∃ c, c ∈ (blockOf step box).cells ∧ c ∈ (blockOf step r).cells) ∧
    (∀ p, ((withStep step boxes).atPoint p).Pairwise (· < ·) ∧
      ∀ k, k ∈ (withStep step boxes).atPoint p ↔ ∃ box, boxes[k]? = some box ∧
        (line step p.x, line step p.y) ∈ (blockOf step box).cells) ∧
    (∀ p q k box, boxes[k]? = some box →
      (∃ t, (0 ≤ t ∧ t ≤ 1) ∧ box.Covers (Point.between p q t)) →
      k ∈ (withStep step boxes).along p q) := by
  refine ⟨fun r => ⟨pairwise_inBox _ r, fun k => mem_inBox⟩,
    fun p => ⟨pairwise_items _, fun k => mem_atPoint⟩, ?_⟩
  rintro p q k box entry ⟨t, ⟨start, stop⟩, covers⟩
  exact mem_along_of_covers positive entry start stop covers

/-- Three of the corners of a block. -/
noncomputable def cornerBoxes : List (Box ℝ) := [⟨0, 0, 5, 5⟩, ⟨40, 40, 45, 45⟩, ⟨40, 0, 45, 5⟩]

/-- A way from north to south on a line of the grid, where two of the boxes begin, passes them. -/
theorem queries_corners : (0 : ℝ) < 10 ∧
    (∀ k, k ∈ (withStep 10 cornerBoxes).atPoint ⟨42, 42, 0⟩ ↔ k = 1) ∧
    1 ∈ (withStep 10 cornerBoxes).along ⟨40, 50, 0⟩ ⟨40, -5, 0⟩ ∧
    2 ∈ (withStep 10 cornerBoxes).along ⟨40, 50, 0⟩ ⟨40, -5, 0⟩ := by
  have positive : (0 : ℝ) < 10 := by norm_num
  obtain ⟨-, atPoint, along⟩ := queries_exact positive cornerBoxes
  have first : line 10 (0 : ℝ) = 0 ∧ line 10 (5 : ℝ) = 0 := by
    norm_num [line_eq_iff positive]
  have fifth : line 10 (40 : ℝ) = 4 ∧ line 10 (42 : ℝ) = 4 ∧ line 10 (45 : ℝ) = 4 := by
    norm_num [line_eq_iff positive]
  refine ⟨positive, fun k => ?_, ?_, ?_⟩
  · rw [(atPoint ⟨42, 42, 0⟩).2 k]
    simp only [Block.mem_cells, blockOf, fifth.2.1]
    rcases k with _ | _ | _ | k <;> simp [cornerBoxes, first, fifth]
  · exact along _ _ 1 _ rfl ⟨1 / 6, by norm_num, by norm_num [Box.Covers, Point.between]⟩
  · exact along _ _ 2 _ rfl ⟨10 / 11, by norm_num, by norm_num [Box.Covers, Point.between]⟩

end Grid

end RoadNoise
