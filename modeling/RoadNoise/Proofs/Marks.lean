/-
# RoadNoise.Proofs.Marks -- what the marks of a cut stand for

The marks of a cut are put together from three lists and sorted.  Each list makes
marks of one kind, so the walls of a cut are those of the buildings' inside parts
and its elevations are those of the relief.
-/
import RoadNoise.Proofs.Scan

set_option autoImplicit false

namespace RoadNoise

namespace Scene

theorem exists_of_mem_wallMarks {s : Scene ℝ} {p q : Point ℝ} {k : Nat} {roof : ℝ} {part : ℝ × ℝ}
    {m : Mark ℝ} (isMark : m ∈ s.wallMarks p q (k, roof, part)) :
    ∃ entering, m.kind = .wall k roof entering := by
  rcases List.mem_append.1 isMark with first | second
  · split at first
    · simp at first
    · obtain rfl := List.mem_singleton.1 first
      exact ⟨true, rfl⟩
  · split at second
    · obtain rfl := List.mem_singleton.1 second
      exact ⟨false, rfl⟩
    · simp at second

theorem isWall_of_mem_wallMarks {s : Scene ℝ} {p q : Point ℝ} {found : Nat × ℝ × (ℝ × ℝ)}
    {m : Mark ℝ} (isMark : m ∈ s.wallMarks p q found) : m.isWall = true := by
  obtain ⟨k, roof, part⟩ := found
  obtain ⟨entering, kind⟩ := exists_of_mem_wallMarks isMark
  simp [Mark.isWall, kind]

theorem isGround_of_mem_groundMarks {α : Type} [Scalar α] {s : Scene α} {p q : Point α}
    {m : Mark α} (isMark : m ∈ s.groundMarks p q) : m.kind = .ground := by
  obtain ⟨k, -, rfl⟩ := List.mem_map.1 isMark
  rfl

theorem exists_of_mem_factorMarks {α : Type} [Scalar α] {s : Scene α} {p q : Point α} {current : α}
    {parts : List (α × α)} {m : Mark α} (isMark : m ∈ s.factorMarks p q current parts) :
    ∃ place, m.kind = .factor (s.groundFactor place) := by
  induction parts generalizing current with
  | nil => simp [factorMarks] at isMark
  | cons part rest ih =>
      rw [factorMarks] at isMark
      split at isMark
      · rcases List.mem_cons.1 isMark with rfl | later
        · exact ⟨_, rfl⟩
        · exact ih later
      · exact ih isMark

theorem mem_walls_cutThrough {s : Scene ℝ} {p q : Point ℝ}
    {inside : List (Nat × ℝ × (ℝ × ℝ))} {m : Mark ℝ} :
    m ∈ (s.cutThrough p q inside).walls ↔ ∃ found ∈ inside, m ∈ s.wallMarks p q found := by
  simp only [Cut.walls, cutThrough, List.mem_filter, Sequence.mem_sortOn, List.mem_append,
    List.mem_flatMap]
  constructor
  · rintro ⟨(ground | found) | factor, isWall⟩
    · simp [Mark.isWall, isGround_of_mem_groundMarks ground] at isWall
    · exact found
    · obtain ⟨g, kind⟩ := exists_of_mem_factorMarks factor
      simp [Mark.isWall, kind] at isWall
  · rintro ⟨found, visited, isMark⟩
    exact ⟨.inl (.inr ⟨found, visited, isMark⟩), isWall_of_mem_wallMarks isMark⟩

theorem mem_groundMarks_iff (s : Scene ℝ) (p q : Point ℝ) (m : Mark ℝ) :
    m ∈ (s.cut p q).marks ∧ m.isGround = true ↔ m ∈ s.groundMarks p q := by
  rw [cut_eq, cutThrough]
  simp only [Sequence.mem_sortOn, List.mem_append, List.mem_flatMap]
  constructor
  · rintro ⟨(ground | ⟨found, -, wall⟩) | factor, isGround⟩
    · exact ground
    · have isWall := isWall_of_mem_wallMarks wall
      unfold Mark.isGround at isGround
      unfold Mark.isWall at isWall
      split at isGround <;> simp_all
    · obtain ⟨g, kind⟩ := exists_of_mem_factorMarks factor
      simp [Mark.isGround, kind] at isGround
  · intro ground
    exact ⟨.inl (.inl ground), by simp [Mark.isGround, isGround_of_mem_groundMarks ground]⟩

theorem isInner_iff (s : Scene ℝ) (p q : Point ℝ) {m : Mark ℝ} : (s.cut p q).isInner m = true ↔
    Scalar.eps < m.distance ∧ m.distance < p.planarDistance q - Scalar.eps := by
  simp only [Cut.isInner, Bool.and_eq_true, decide_eq_true_eq]
  rfl

end Scene

end RoadNoise
