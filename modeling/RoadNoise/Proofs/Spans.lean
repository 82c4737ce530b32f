/-
# RoadNoise.Proofs.Spans -- the ground along a cut

The spans of a cut are read off its marks in order of distance: a factor of the ground, and
a number of buildings around, both as the marks up to a place leave them (`Cut.factorAt`,
`Cut.insideAt`).  The number is counted down when a building is left and stops at zero, but it
never gets there too early, because every building that is left was entered before (`Balanced`).
So it says whether an inside part is around the place (`Draft.insideAt_pos_iff`), and the spans
are hard exactly inside of buildings and elsewhere have the factor of the ground, up to the
tolerance below which a change is not marked (`Draft.spans_spec`).
-/
import RoadNoise.Proofs.Lookup
import RoadNoise.Proofs.Pieces

set_option autoImplicit false

namespace RoadNoise

/-! ## Marks one after the other -/

namespace Mark

/-- A building is entered. -/
def enters (m : Mark ℝ) : Bool :=
  match m.kind with
  | .wall _ _ entering => entering
  | _ => false

/-- A building is left. -/
def leaves (m : Mark ℝ) : Bool :=
  match m.kind with
  | .wall _ _ entering => !entering
  | _ => false

/-- The factor of the ground from here on, where it was `g` before. -/
def factorAfter (g : ℝ) (m : Mark ℝ) : ℝ :=
  match m.kind with
  | .factor g' => g'
  | _ => g

/-- The number of buildings around from here on, where it was `inside` before. -/
def insideAfter (inside : Nat) (m : Mark ℝ) : Nat :=
  match m.kind with
  | .wall _ _ true => inside + 1
  | .wall _ _ false => inside - 1
  | _ => inside

/-- A mark enters a building, leaves one, or neither. -/
theorem inside_cases (m : Mark ℝ) :
    (m.enters = false ∧ m.leaves = false ∧ ∀ k, m.insideAfter k = k) ∨
    (m.enters = true ∧ m.leaves = false ∧ ∀ k, m.insideAfter k = k + 1) ∨
    (m.enters = false ∧ m.leaves = true ∧ ∀ k, m.insideAfter k = k - 1) := by
  unfold enters leaves insideAfter
  cases m.kind with
  | ground => simp
  | factor g => simp
  | wall b roof entering => cases entering <;> simp

end Mark

namespace Cut

/-- The factor of the ground at a distance, after the marks up to there. -/
noncomputable def factorAt (g : ℝ) (marks : List (Mark ℝ)) (x : ℝ) : ℝ :=
  (marks.filter fun m => decide (m.distance ≤ x)).foldl Mark.factorAfter g

/-- The number of buildings around a distance, after the marks up to there. -/
noncomputable def insideAt (inside : Nat) (marks : List (Mark ℝ)) (x : ℝ) : Nat :=
  (marks.filter fun m => decide (m.distance ≤ x)).foldl Mark.insideAfter inside

/-- The factor that counts: under a building the ground is hard. -/
def hardened (g : ℝ) (inside : Nat) : ℝ := if 0 < inside then 0 else g

/-- The span that covers a distance from where the spans begin. -/
noncomputable def spanAt : List (Span ℝ) → ℝ → Option (Span ℝ)
  | [], _ => none
  | span :: rest, x => if x < span.length then some span else spanAt rest (x - span.length)

variable {length g last x : ℝ} {inside : Nat} {m : Mark ℝ} {marks : List (Mark ℝ)}

theorem spansFrom_nil (length g last : ℝ) (inside : Nat) : spansFrom length g inside last []
    = if last < length then [⟨length - last, hardened g inside⟩] else [] := rfl

/-- One step over a mark. -/
theorem spansFrom_cons (length g last : ℝ) (inside : Nat) (m : Mark ℝ) (marks : List (Mark ℝ)) :
    spansFrom length g inside last (m :: marks)
      = if m.isGround = false ∧ last < m.distance then
          ⟨m.distance - last, hardened g inside⟩
            :: spansFrom length (m.factorAfter g) (m.insideAfter inside) m.distance marks
        else spansFrom length (m.factorAfter g) (m.insideAfter inside) last marks := by
  rw [spansFrom]
  cases kind : m.kind with
  | ground => simp [Mark.isGround, Mark.factorAfter, Mark.insideAfter, kind]
  | factor g' => simp [Mark.isGround, Mark.factorAfter, Mark.insideAfter, kind, hardened]
  | wall b roof entering =>
      cases entering <;>
        simp [Mark.isGround, Mark.factorAfter, Mark.insideAfter, kind, hardened]

/-- Spans have lengths, and cover what is left if no mark lies beyond the end. -/
theorem lengths_spansFrom (g : ℝ) (inside : Nat) (reach : last ≤ length)
    (within : ∀ m ∈ marks, m.isGround = false → m.distance ≤ length) :
    (∀ span ∈ spansFrom length g inside last marks, 0 < span.length) ∧
      ((spansFrom length g inside last marks).map Span.length).sum = length - last := by
  induction marks generalizing g inside last with
  | nil =>
      rw [spansFrom_nil]
      split_ifs with short
      · simpa using short
      · simp [le_antisymm reach (not_lt.1 short)]
  | cons m marks ih =>
      have later : ∀ m ∈ marks, m.isGround = false → m.distance ≤ length :=
        fun m' entry => within m' (List.mem_cons_of_mem _ entry)
      rw [spansFrom_cons]
      split_ifs with ahead
      · obtain ⟨positive, sum⟩ := ih (m.factorAfter g) (m.insideAfter inside)
          (within m List.mem_cons_self ahead.1) later
        constructor
        · intro span entry
          rcases List.mem_cons.1 entry with rfl | entry
          · exact sub_pos.2 ahead.2
          · exact positive span entry
        · rw [List.map_cons, List.sum_cons, sum]
          ring
      · exact ih _ _ reach later

theorem filter_eq_nil_of_before (sorted : (m :: marks).Pairwise fun a b => a.distance ≤ b.distance)
    (before : x < m.distance) : (m :: marks).filter (fun m => decide (m.distance ≤ x)) = [] := by
  rw [List.filter_eq_nil_iff]
  intro m' entry
  rw [decide_eq_true_eq, not_le]
  rcases List.mem_cons.1 entry with rfl | later
  · exact before
  · exact before.trans_le ((List.pairwise_cons.1 sorted).1 m' later)

theorem factorAt_cons_of_le (passed : m.distance ≤ x) :
    factorAt g (m :: marks) x = factorAt (m.factorAfter g) marks x := by
  rw [factorAt, List.filter_cons_of_pos (by simpa using passed)]
  rfl

theorem insideAt_cons_of_le (passed : m.distance ≤ x) :
    insideAt inside (m :: marks) x = insideAt (m.insideAfter inside) marks x := by
  rw [insideAt, List.filter_cons_of_pos (by simpa using passed)]
  rfl

/-- The span that covers a distance has what the marks up to there leave. -/
theorem exists_spanAt (g : ℝ) (inside : Nat)
    (sorted : marks.Pairwise fun a b => a.distance ≤ b.distance)
    (start : last ≤ x) (stop : x < length) :
    ∃ span, spanAt (spansFrom length g inside last marks) (x - last) = some span ∧
      span.factor = hardened (factorAt g marks x) (insideAt inside marks x) := by
  induction marks generalizing g inside last with
  | nil =>
      refine ⟨⟨length - last, hardened g inside⟩, ?_, rfl⟩
      rw [spansFrom_nil, if_pos (start.trans_lt stop)]
      simp [spanAt, stop]
  | cons m marks ih =>
      rw [spansFrom_cons]
      by_cases passed : m.distance ≤ x
      · -- the mark counts, and the span before it ends before the place
        rw [factorAt_cons_of_le passed, insideAt_cons_of_le passed]
        split_ifs with ahead
        · rw [spanAt, if_neg (by linarith), sub_sub_sub_cancel_right]
          exact ih _ _ (List.pairwise_cons.1 sorted).2 passed
        · exact ih _ _ (List.pairwise_cons.1 sorted).2 start
      · have none := filter_eq_nil_of_before sorted (not_le.1 passed)
        rw [factorAt, insideAt, none]
        split_ifs with ahead
        · refine ⟨⟨m.distance - last, hardened g inside⟩, ?_, rfl⟩
          rw [spanAt, if_pos (by linarith)]
        · have ground : m.isGround = true := by
            by_contra other
            exact ahead ⟨Bool.eq_false_iff.2 other, start.trans_lt (not_le.1 passed)⟩
          have kept : m.factorAfter g = g ∧ m.insideAfter inside = inside := by
            unfold Mark.isGround at ground
            unfold Mark.factorAfter Mark.insideAfter
            split at ground <;> simp_all
          obtain ⟨span, covers, factor⟩ := ih g inside (List.pairwise_cons.1 sorted).2 start
          rw [kept.1, kept.2]
          refine ⟨span, covers, factor.trans ?_⟩
          rw [factorAt, insideAt, (List.filter_cons_of_neg (by simpa using passed)).symm.trans none]

/-! ## Counting buildings -/

/-- Every building that is left was entered before, or was one of those at the start. -/
def Balanced (inside : Nat) (marks : List (Mark ℝ)) : Prop :=
  ∀ x, marks.countP (fun m => m.leaves && decide (m.distance ≤ x))
    ≤ inside + marks.countP (fun m => m.enters && decide (m.distance < x))

theorem countP_eq_zero_of_before (keep : Mark ℝ → Bool) (close : ℝ → Bool)
    (far : ∀ m ∈ marks, close m.distance = false) :
    marks.countP (fun m => keep m && close m.distance) = 0 := by
  rw [List.countP_eq_zero]
  intro m entry
  simp [far m entry]

/-- Passing the first mark keeps the balance. -/
theorem Balanced.tail (sorted : (m :: marks).Pairwise fun a b => a.distance ≤ b.distance)
    (balanced : Balanced inside (m :: marks)) : Balanced (m.insideAfter inside) marks ∧
      (m.leaves = true → 0 < inside) := by
  have least := (List.pairwise_cons.1 sorted).1
  rcases m.inside_cases with ⟨enters, leaves, after⟩ | ⟨enters, leaves, after⟩ |
    ⟨enters, leaves, after⟩
  · refine ⟨fun x => ?_, by simp [leaves]⟩
    have known := balanced x
    simpa [List.countP_cons, enters, leaves, after] using known
  · refine ⟨fun x => ?_, by simp [leaves]⟩
    have known := balanced x
    simp only [List.countP_cons, enters, leaves, after, Bool.false_and, Bool.false_eq_true,
      if_false, Bool.true_and, decide_eq_true_eq] at known ⊢
    split_ifs at known <;> omega
  · -- nothing is entered before the first mark, so there is something to leave
    have atMark := balanced m.distance
    rw [List.countP_cons, List.countP_cons,
      countP_eq_zero_of_before Mark.enters (fun d => decide (d < m.distance))
        fun m' entry => by simpa using least m' entry] at atMark
    simp only [enters, leaves, le_refl, lt_irrefl, decide_true, decide_false, Bool.and_self,
      if_true, Bool.false_eq_true, if_false] at atMark
    refine ⟨fun x => ?_, fun _ => by omega⟩
    rw [after]
    by_cases passed : m.distance ≤ x
    · have known := balanced x
      simp only [List.countP_cons, enters, leaves, passed, decide_true, Bool.and_self, if_true,
        Bool.false_and, Bool.false_eq_true, if_false] at known
      omega
    · rw [countP_eq_zero_of_before Mark.leaves (fun d => decide (d ≤ x))
        fun m' entry => by simpa using (not_le.1 passed).trans_le (least m' entry)]
      exact Nat.zero_le _

/-- The count of buildings is never held at zero, so it is that of those entered and not
left. -/
theorem insideAt_add (sorted : marks.Pairwise fun a b => a.distance ≤ b.distance)
    (balanced : Balanced inside marks) (x : ℝ) :
    insideAt inside marks x + marks.countP (fun m => m.leaves && decide (m.distance ≤ x))
      = inside + marks.countP (fun m => m.enters && decide (m.distance ≤ x)) := by
  induction marks generalizing inside with
  | nil => rfl
  | cons m marks ih =>
      obtain ⟨least, rest⟩ := List.pairwise_cons.1 sorted
      by_cases passed : m.distance ≤ x
      · obtain ⟨balanced, nonempty⟩ := balanced.tail sorted
        have known := ih rest balanced
        rw [insideAt_cons_of_le passed, List.countP_cons, List.countP_cons]
        rcases m.inside_cases with ⟨enters, leaves, after⟩ | ⟨enters, leaves, after⟩ |
          ⟨enters, leaves, after⟩
        · simpa [enters, leaves, after] using known
        · simp only [enters, leaves, after, passed, decide_true, Bool.and_self, if_true,
            Bool.false_and, Bool.false_eq_true, if_false] at known ⊢
          omega
        · have := nonempty leaves
          simp only [enters, leaves, after, passed, decide_true, Bool.and_self, if_true,
            Bool.false_and, Bool.false_eq_true, if_false] at known ⊢
          omega
      · have far : ∀ m' ∈ m :: marks, decide (m'.distance ≤ x) = false := by
          intro m' entry
          rw [decide_eq_false_iff_not, not_le]
          rcases List.mem_cons.1 entry with rfl | later
          · exact not_le.1 passed
          · exact (not_le.1 passed).trans_le (least m' later)
        rw [insideAt, filter_eq_nil_of_before sorted (not_le.1 passed),
          countP_eq_zero_of_before _ (fun d => decide (d ≤ x)) far,
          countP_eq_zero_of_before _ (fun d => decide (d ≤ x)) far]
        rfl

end Cut

/-! ## Buildings around a place -/

section Counting

variable {β γ : Type}

theorem countP_flatMap {f : β → List γ} {keep : γ → Bool} {test : β → Bool} {l : List β}
    (each : ∀ b ∈ l, (f b).countP keep = (test b).toNat) :
    (l.flatMap f).countP keep = l.countP test := by
  induction l with
  | nil => rfl
  | cons b l ih =>
      rw [List.flatMap_cons, List.countP_append, each b List.mem_cons_self,
        ih fun b' entry => each b' (List.mem_cons_of_mem _ entry), List.countP_cons, add_comm]
      cases test b <;> rfl

theorem countP_add_countP (f g : β → Bool) (l : List β) :
    l.countP f + l.countP (fun b => !f b && g b) = l.countP fun b => f b || g b := by
  induction l with
  | nil => rfl
  | cons b l ih =>
      simp only [List.countP_cons]
      cases f b <;> cases g b <;> simp <;> omega

/-- More pass the one test than the other, which is stronger, if some pass only the one. -/
theorem countP_lt_countP_iff {f g : β → Bool} {l : List β} (weaker : ∀ b ∈ l, f b → g b) :
    l.countP f < l.countP g ↔ ∃ b ∈ l, f b = false ∧ g b = true := by
  have both : l.countP (fun b => f b || g b) = l.countP g := by
    refine List.countP_congr fun b entry => ?_
    cases passes : f b with
    | false => rfl
    | true => simp [weaker b entry passes]
  have parts := countP_add_countP f g l
  rw [both] at parts
  rw [← parts, lt_add_iff_pos_right, List.countP_pos_iff]
  simp

end Counting

namespace Scene

variable {s : Scene ℝ} {p q : Point ℝ}

theorem sorted_cut (s : Scene ℝ) (p q : Point ℝ) :
    (s.cut p q).marks.Pairwise fun a b => a.distance ≤ b.distance :=
  Sequence.pairwise_sortOn_key Mark.distance _

theorem perm_cut (s : Scene ℝ) (p q : Point ℝ) : (s.cut p q).marks.Perm
    (s.groundMarks p q ++ (s.insideBuildings p q).flatMap (s.wallMarks p q)
      ++ s.factorMarks p q (s.cut p q).startFactor (s.groundParts p q).tail) :=
  Sequence.sortOn_perm _ _

theorem enters_groundMarks {m : Mark ℝ} (ground : m ∈ s.groundMarks p q) :
    m.enters = false ∧ m.leaves = false := by
  simp [Mark.enters, Mark.leaves, isGround_of_mem_groundMarks ground]

theorem enters_factorMarks {g : ℝ} {parts : List (ℝ × ℝ)} {m : Mark ℝ}
    (factor : m ∈ s.factorMarks p q g parts) : m.enters = false ∧ m.leaves = false := by
  obtain ⟨g', kind⟩ := exists_of_mem_factorMarks factor
  simp [Mark.enters, Mark.leaves, kind]

/-- Marks of walls are counted by the inside parts that they belong to. -/
theorem countP_cut {keep : Mark ℝ → Bool} {test : Nat × ℝ × (ℝ × ℝ) → Bool}
    (walls : ∀ found, (s.wallMarks p q found).countP keep = (test found).toNat)
    (others : ∀ m, m.enters = false ∧ m.leaves = false → keep m = false) :
    (s.cut p q).marks.countP keep = (s.insideBuildings p q).countP test := by
  have none : ∀ l : List (Mark ℝ), (∀ m ∈ l, m.enters = false ∧ m.leaves = false) →
      l.countP keep = 0 := by
    intro l neither
    rw [List.countP_eq_zero]
    intro m entry
    simp [others m (neither m entry)]
  rw [(s.perm_cut p q).countP_eq, List.countP_append, List.countP_append,
    none _ fun m => enters_groundMarks, none _ fun m => enters_factorMarks, zero_add, add_zero]
  exact countP_flatMap fun found _ => walls found

theorem countP_enters (close : ℝ → Bool) :
    (s.cut p q).marks.countP (fun m => m.enters && close m.distance)
      = (s.insideBuildings p q).countP fun found =>
        !decide (found.2.2.1 ≤ Scalar.eps) && close (found.2.2.1 * p.planarDistance q) := by
  refine countP_cut ?_ fun m neither => by simp [neither]
  rintro ⟨b, roof, ta, tb⟩
  simp only [wallMarks, List.countP_append]
  split_ifs with start stop stop <;> simp [Mark.enters, start]
  all_goals cases close (ta * p.planarDistance q) <;> rfl

theorem countP_leaves (close : ℝ → Bool) :
    (s.cut p q).marks.countP (fun m => m.leaves && close m.distance)
      = (s.insideBuildings p q).countP fun found =>
        decide (found.2.2.2 < 1 - Scalar.eps) && close (found.2.2.2 * p.planarDistance q) := by
  refine countP_cut ?_ fun m neither => by simp [neither]
  rintro ⟨b, roof, ta, tb⟩
  simp only [wallMarks, List.countP_append]
  split_ifs with start stop stop <;> simp [Mark.leaves, stop]
  all_goals cases close (tb * p.planarDistance q) <;> rfl

/-- An inside part begins on the segment. -/
theorem le_one_of_mem_insideBuildings {found : Nat × ℝ × (ℝ × ℝ)}
    (inside : found ∈ s.insideBuildings p q) : found.2.2.1 ≤ 1 := by
  obtain ⟨b, -, listed⟩ := List.mem_flatMap.1 inside
  obtain ⟨building, roof, -, -, part, isPart, rfl⟩ := mem_partsInside.1 listed
  exact (Polygon.reaches_of_mem_insideParts isPart).1

/-- Every building that a cut leaves it has entered before. -/
theorem balanced_cut (long : 0 < p.planarDistance q) :
    Cut.Balanced (s.cut p q).startInside (s.cut p q).marks := by
  intro x
  rw [countP_enters fun d => decide (d < x), countP_leaves fun d => decide (d ≤ x)]
  have start : (s.cut p q).startInside
      = (s.insideBuildings p q).countP fun found => decide (found.2.2.1 ≤ Scalar.eps) := rfl
  rw [start, countP_add_countP]
  refine List.countP_mono_left fun found inside leaves => ?_
  have wide := eps_le_of_mem_insideBuildings inside
  have positive := Scalar.eps_pos
  simp only [Bool.and_eq_true, Bool.or_eq_true, decide_eq_true_eq] at leaves ⊢
  right
  nlinarith

/-- Some building is around a place of the cut if its position lies in an inside part. -/
theorem insideAt_pos_iff (long : 0 < p.planarDistance q) (t : ℝ) :
    0 < Cut.insideAt (s.cut p q).startInside (s.cut p q).marks (t * p.planarDistance q) ↔
      ∃ found ∈ s.insideBuildings p q, (found.2.2.1 ≤ Scalar.eps ∨ found.2.2.1 ≤ t) ∧
        ¬(found.2.2.2 < 1 - Scalar.eps ∧ found.2.2.2 ≤ t) := by
  have known := Cut.insideAt_add (s.sorted_cut p q) (s.balanced_cut long) (t * p.planarDistance q)
  have start : (s.cut p q).startInside
      = (s.insideBuildings p q).countP fun found => decide (found.2.2.1 ≤ Scalar.eps) := rfl
  rw [countP_enters fun d => decide (d ≤ t * p.planarDistance q),
    countP_leaves fun d => decide (d ≤ t * p.planarDistance q)] at known
  nth_rewrite 2 [start] at known
  rw [countP_add_countP] at known
  have order : 0 < Cut.insideAt (s.cut p q).startInside (s.cut p q).marks
      (t * p.planarDistance q) ↔ (s.insideBuildings p q).countP (fun found =>
        decide (found.2.2.2 < 1 - Scalar.eps) &&
          decide (found.2.2.2 * p.planarDistance q ≤ t * p.planarDistance q))
      < (s.insideBuildings p q).countP fun found => decide (found.2.2.1 ≤ Scalar.eps) ||
          decide (found.2.2.1 * p.planarDistance q ≤ t * p.planarDistance q) := by
    omega
  rw [order, countP_lt_countP_iff]
  · simp only [mul_le_mul_iff_left₀ long, Bool.and_eq_false_iff, Bool.or_eq_true,
      decide_eq_true_eq, decide_eq_false_iff_not, ← not_and_or, and_comm]
  · intro found inside leaves
    have wide := eps_le_of_mem_insideBuildings inside
    have positive := Scalar.eps_pos
    simp only [mul_le_mul_iff_left₀ long, Bool.and_eq_true, Bool.or_eq_true,
      decide_eq_true_eq] at leaves ⊢
    right
    linarith [leaves.2]

end Scene

/-! ## The factor of the ground -/

namespace Mark

def isFactor (m : Mark ℝ) : Bool :=
  match m.kind with
  | .factor _ => true
  | _ => false

theorem foldl_factorAfter_filter (g : ℝ) (l : List (Mark ℝ)) :
    (l.filter isFactor).foldl factorAfter g = l.foldl factorAfter g := by
  induction l generalizing g with
  | nil => rfl
  | cons m l ih =>
      cases kind : m.kind <;> simp [isFactor, factorAfter, kind, ih]

end Mark

namespace Scene

variable {s : Scene ℝ} {p q : Point ℝ} {current : ℝ} {parts : List (ℝ × ℝ)}

theorem exists_part_of_mem_factorMarks {m : Mark ℝ} (isMark : m ∈ s.factorMarks p q current parts) :
    m.isFactor = true ∧ ∃ part ∈ parts, m.distance = part.1 * p.planarDistance q := by
  induction parts generalizing current with
  | nil => simp [factorMarks] at isMark
  | cons part rest ih =>
      have later : ∀ g, m ∈ s.factorMarks p q g rest → m.isFactor = true ∧
          ∃ part' ∈ part :: rest, m.distance = part'.1 * p.planarDistance q := by
        intro g entry
        obtain ⟨kind, part', listed, distance⟩ := ih entry
        exact ⟨kind, part', List.mem_cons_of_mem _ listed, distance⟩
      rw [factorMarks] at isMark
      split at isMark
      · rcases List.mem_cons.1 isMark with rfl | entry
        · exact ⟨rfl, part, List.mem_cons_self, rfl⟩
        · exact later _ entry
      · exact later _ isMark

/-- Changes of the ground come in order. -/
theorem pairwise_factorMarks (long : 0 < p.planarDistance q)
    (ascending : parts.Pairwise fun u v => u.1 < v.1) :
    (s.factorMarks p q current parts).Pairwise fun a b => a.distance < b.distance := by
  induction parts generalizing current with
  | nil => exact .nil
  | cons part rest ih =>
      obtain ⟨least, ascending⟩ := List.pairwise_cons.1 ascending
      rw [factorMarks]
      split
      · refine List.pairwise_cons.2 ⟨fun m later => ?_, ih ascending⟩
        obtain ⟨-, part', listed, distance⟩ := exists_part_of_mem_factorMarks later
        rw [distance]
        exact mul_lt_mul_of_pos_right (least part' listed) long
      · exact ih ascending

/-- The ground at a place in one of the parts: the changes up to there have followed the
factors of the parts, each up to the tolerance. -/
theorem factorAt_factorMarks (long : 0 < p.planarDistance q) {part : ℝ × ℝ} {t : ℝ}
    (ordered : Ordered (part :: parts)) (follows : |current - s.partFactor p q part| ≤ Scalar.eps)
    {target : ℝ × ℝ} (listed : target ∈ part :: parts) (start : target.1 ≤ t)
    (stop : t < target.2) :
    |Cut.factorAt current (s.factorMarks p q current parts) (t * p.planarDistance q)
      - s.partFactor p q target| ≤ Scalar.eps := by
  induction parts generalizing current part with
  | nil =>
      obtain rfl := List.mem_singleton.1 listed
      exact follows
  | cons next rest ih =>
      rcases List.mem_cons.1 listed with rfl | later
      · -- all changes lie beyond the part
        have none : (s.factorMarks p q current (next :: rest)).filter
            (fun m => decide (m.distance ≤ t * p.planarDistance q)) = [] := by
          rw [List.filter_eq_nil_iff]
          intro m isMark
          obtain ⟨-, part', isPart, distance⟩ := exists_part_of_mem_factorMarks isMark
          have beyond := (List.pairwise_cons.1 ordered.1).1 part' isPart
          rw [decide_eq_true_eq, not_le, distance]
          exact mul_lt_mul_of_pos_right (stop.trans_le beyond) long
        rw [Cut.factorAt, none]
        exact follows
      · have passed : next.1 ≤ t := by
          rcases List.mem_cons.1 later with rfl | later
          · exact start
          · have forwards := ordered.2 next (by simp)
            have beyond := (List.pairwise_cons.1 ordered.tail.1).1 target later
            linarith
        rw [factorMarks]
        split
        · have kept : next.1 * p.planarDistance q ≤ t * p.planarDistance q :=
            mul_le_mul_of_nonneg_right passed long.le
          have exactly : |s.partFactor p q next - s.partFactor p q next| ≤ Scalar.eps := by
            rw [sub_self, abs_zero]
            exact Scalar.eps_pos.le
          rw [Cut.factorAt_cons_of_le kept]
          exact ih ordered.tail exactly later
        · rename_i small
          refine ih ordered.tail ?_ later
          rw [abs_sub_comm]
          exact not_lt.1 small

/-- The boundary crossings of all areas that the segment may meet. -/
def areaCrossings {α : Type} [Scalar α] (s : Scene α) (p q : Point α) : List α :=
  (s.areaGrid.along p q).flatMap fun a =>
    match s.areas[a]? with
    | some area => area.outline.boundaryCrossings p q
    | none => []

theorem groundParts_eq {α : Type} [Scalar α] (s : Scene α) (p q : Point α) : s.groundParts p q
    = Sequence.adjacent (tidyPositions ([0, 1] ++ s.areaCrossings p q)) := rfl

theorem ordered_groundParts (s : Scene ℝ) (p q : Point ℝ) :
    Ordered (s.groundParts p q) ∧ (s.groundParts p q).Pairwise fun u v => u.1 < v.1 := by
  have gaps := pairwise_tidyPositions ([0, 1] ++ s.areaCrossings p q)
  have ordered := ordered_adjacent (le_of_gap gaps)
  rw [groundParts_eq]
  refine ⟨ordered, ordered.1.imp_of_mem fun first _ beyond => ?_⟩
  exact ((wide_adjacent gaps).2 _ first).trans_le beyond

/-- The changes of the ground among the marks of a cut, in their order. -/
theorem filter_isFactor_cut (s : Scene ℝ) (long : 0 < p.planarDistance q) :
    (s.cut p q).marks.filter Mark.isFactor
      = s.factorMarks p q (s.cut p q).startFactor (s.groundParts p q).tail := by
  have ascending : (s.groundParts p q).tail.Pairwise fun u v => u.1 < v.1 :=
    (s.ordered_groundParts p q).2.sublist (List.tail_sublist _)
  refine Sequence.eq_of_pairwise_key Mark.distance ?_ ((s.sorted_cut p q).filter _)
    (pairwise_factorMarks long ascending)
  have ground : (s.groundMarks p q).filter Mark.isFactor = [] := by
    rw [List.filter_eq_nil_iff]
    intro m isMark
    simp [Mark.isFactor, isGround_of_mem_groundMarks isMark]
  have walls : ((s.insideBuildings p q).flatMap (s.wallMarks p q)).filter Mark.isFactor = [] := by
    rw [List.filter_eq_nil_iff]
    intro m isMark
    obtain ⟨⟨b, roof, part⟩, -, isMark⟩ := List.mem_flatMap.1 isMark
    obtain ⟨entering, kind⟩ := exists_of_mem_wallMarks isMark
    simp [Mark.isFactor, kind]
  have factors : (s.factorMarks p q (s.cut p q).startFactor (s.groundParts p q).tail).filter
      Mark.isFactor = s.factorMarks p q (s.cut p q).startFactor (s.groundParts p q).tail :=
    List.filter_eq_self.2 fun m isMark => (exists_part_of_mem_factorMarks isMark).1
  have perm := (s.perm_cut p q).filter Mark.isFactor
  rwa [List.filter_append, List.filter_append, ground, walls, factors] at perm

/-- The ground at a place of a cut is that of its part, up to the tolerance. -/
theorem factorAt_cut (long : 0 < p.planarDistance q) {target : ℝ × ℝ} {t : ℝ}
    (listed : target ∈ s.groundParts p q) (start : target.1 ≤ t) (stop : t < target.2) :
    |Cut.factorAt (s.cut p q).startFactor (s.cut p q).marks (t * p.planarDistance q)
      - s.partFactor p q target| ≤ Scalar.eps := by
  obtain ⟨part, rest, parts⟩ := List.exists_cons_of_ne_nil (List.ne_nil_of_mem listed)
  have first : (s.cut p q).startFactor = s.partFactor p q part := by
    simp only [cut, parts]
  have ordered := (s.ordered_groundParts p q).1
  have changes := s.filter_isFactor_cut long
  rw [first, parts, List.tail_cons] at changes
  rw [parts] at listed ordered
  have same : Cut.factorAt (s.partFactor p q part) (s.cut p q).marks (t * p.planarDistance q)
      = Cut.factorAt (s.partFactor p q part) (s.factorMarks p q (s.partFactor p q part) rest)
        (t * p.planarDistance q) := by
    rw [← changes, Cut.factorAt, Cut.factorAt, ← Mark.foldl_factorAfter_filter, List.filter_comm]
  rw [first, same]
  refine factorAt_factorMarks long ordered ?_ listed start stop
  rw [sub_self, abs_zero]
  exact Scalar.eps_pos.le

theorem mem_areaCrossings {k : ℝ} : k ∈ s.areaCrossings p q ↔
    ∃ i ∈ s.areaGrid.along p q, ∃ area, s.areas[i]? = some area ∧
      k ∈ area.outline.boundaryCrossings p q := by
  simp only [areaCrossings, List.mem_flatMap]
  refine exists_congr fun i => and_congr_right fun _ => ?_
  cases s.areas[i]? <;> simp

/-- Positions of the ground stray from the segment by no more than the tolerance. -/
theorem bounds_groundPositions {k : ℝ} (listed : k ∈ [0, 1] ++ s.areaCrossings p q) :
    -Scalar.eps ≤ k ∧ k ≤ 1 + Scalar.eps := by
  have positive := Scalar.eps_pos
  simp only [List.cons_append, List.nil_append, List.mem_cons] at listed
  rcases listed with rfl | rfl | crossing
  · exact ⟨by linarith, by linarith⟩
  · exact ⟨by linarith, by linarith⟩
  · obtain ⟨i, -, area, -, met⟩ := mem_areaCrossings.1 crossing
    exact Polygon.le_of_mem_boundaryCrossings met

/-- No mark but those of the ground lies beyond the end of the cut. -/
theorem distance_le_of_mem_cut {m : Mark ℝ} (isMark : m ∈ (s.cut p q).marks)
    (other : m.isGround = false) : m.distance ≤ p.planarDistance q := by
  have long := p.planarDistance_nonneg q
  have positive := Scalar.eps_pos
  have listed := (s.perm_cut p q).mem_iff.1 isMark
  rw [List.mem_append, List.mem_append] at listed
  rcases listed with (ground | wall) | factor
  · simp [Mark.isGround, isGround_of_mem_groundMarks ground] at other
  · obtain ⟨⟨b, roof, ta, tb⟩, inside, isMark⟩ := List.mem_flatMap.1 wall
    have stop := le_one_of_mem_insideBuildings inside
    unfold wallMarks at isMark
    rcases List.mem_append.1 isMark with enters | leaves
    · split_ifs at enters with start
      · simp at enters
      · obtain rfl := List.mem_singleton.1 enters
        exact mul_le_of_le_one_left long stop
    · split_ifs at leaves with before
      · obtain rfl := List.mem_singleton.1 leaves
        exact mul_le_of_le_one_left long (by linarith)
      · simp at leaves
  · obtain ⟨-, part, isPart, distance⟩ := exists_part_of_mem_factorMarks factor
    have isPart := List.mem_of_mem_tail isPart
    rw [groundParts_eq] at isPart
    have wide := Sequence.pairwise_of_mem_adjacent (pairwise_tidyPositions _) isPart
    have stop := (bounds_groundPositions (mem_of_mem_tidyPositions
      (Sequence.mem_of_mem_adjacent isPart).2)).2
    rw [distance]
    exact mul_le_of_le_one_left long (by linarith)

end Scene

/-! ## Finished drafts -/

namespace Draft

variable {d : Draft ℝ} {p q : Point ℝ}

/-- Every edge of a building or an area is parallel to the segment or clearly turns from
it. -/
def Posed (d : Draft ℝ) (p q : Point ℝ) : Prop :=
  (∀ b ∈ d.buildings, ∀ e ∈ b.outline.edges, RoadNoise.Posed p q e) ∧
    ∀ a ∈ d.areas, ∀ e ∈ a.outline.edges, RoadNoise.Posed p q e

/-- The relative position is clear of the ends of the segment and of its boundary
crossings with all buildings and areas. -/
def ClearOf (d : Draft ℝ) (p q : Point ℝ) (margin t : ℝ) : Prop :=
  Clear margin t [0, 1] ∧ (∀ b ∈ d.buildings, Clear margin t (b.outline.boundaryCrossings p q)) ∧
    ∀ a ∈ d.areas, Clear margin t (a.outline.boundaryCrossings p q)

/-- An area that holds a place of a segment is found along it. -/
theorem mem_areaGrid_of_contains (made : d.Made) (holes : d.HolesInBox) {i : Nat}
    {area : GroundArea ℝ} (entry : d.areas[i]? = some area) {t : ℝ} (inside : 0 ≤ t ∧ t ≤ 1)
    (holds : area.outline.contains (Point.between p q t) = true) :
    i ∈ d.finish.areaGrid.along p q := by
  have member : area ∈ d.areas := Array.mem_of_getElem? entry
  have framed := (made.sound.areaDrawn area member).framed (holes.2 area member)
  have boxed : (d.areas.toList.map (·.outline.box))[i]? = some area.outline.box := by
    simp [entry]
  exact Grid.mem_along_of_covers (Grid.stepFor_pos _) boxed inside.1 inside.2
    (Polygon.covers_of_contains framed holds)

/-- The ground well inside a part has the factor of the part. -/
theorem partFactor_eq (made : d.Made) (holes : d.HolesInBox) (posed : d.Posed p q) {a b t : ℝ}
    (part : (a, b) ∈ d.finish.groundParts p q) (inside : 0 ≤ t ∧ t ≤ 1)
    (before : a + 2 * Scalar.eps ≤ t) (after : t + 2 * Scalar.eps ≤ b) :
    d.finish.partFactor p q (a, b) = d.finish.groundFactor (Point.between p q t) := by
  have positive := Scalar.eps_pos
  rw [Scene.groundParts_eq] at part
  obtain ⟨isFirst, isSecond⟩ := Sequence.mem_of_mem_adjacent part
  have low := (Scene.bounds_groundPositions (mem_of_mem_tidyPositions isFirst)).1
  have high := (Scene.bounds_groundPositions (mem_of_mem_tidyPositions isSecond)).2
  rw [Scene.partFactor, finish_groundFactor made holes, finish_groundFactor made holes,
    Scene.plainGroundFactor, Scene.plainGroundFactor]
  have same : ∀ i, d.finish.factorIn (Point.between p q (0.5 * (a + b))) i
      = d.finish.factorIn (Point.between p q t) i := by
    intro i
    unfold Scene.factorIn
    cases entry : d.finish.areas[i]? with
    | none => rfl
    | some area =>
        have member : area ∈ d.areas := Array.mem_of_getElem? entry
        have framed := (made.sound.areaDrawn area member).framed (holes.2 area member)
        have agree : area.outline.contains (Point.between p q (0.5 * (a + b)))
            = area.outline.contains (Point.between p q t) := by
          by_cases found : i ∈ d.finish.areaGrid.along p q
          · refine (Polygon.contains_eq_middle framed (posed.2 area member) (fun k met => ?_)
              (fun k => Scene.bounds_groundPositions) part inside before after).symm
            exact List.mem_append_right _ (Scene.mem_areaCrossings.2 ⟨i, found, area, entry, met⟩)
          · have nowhere : ∀ u, 0 ≤ u ∧ u ≤ 1 →
                area.outline.contains (Point.between p q u) = false := by
              intro u onSegment
              rw [← Bool.not_eq_true]
              exact fun holds => found (mem_areaGrid_of_contains made holes entry onSegment holds)
            rw [nowhere t inside, nowhere _ ⟨by linarith, by linarith⟩]
        dsimp only
        rw [agree]
  rw [funext same]

theorem ClearOf.building {margin t : ℝ} (clear : d.ClearOf p q margin t) {b : Building ℝ}
    (member : b ∈ d.buildings) :
    Clear margin t ((0 : ℝ) :: b.outline.boundaryCrossings p q ++ [1]) := by
  intro k entry
  simp only [List.cons_append, List.mem_cons, List.mem_append, List.not_mem_nil, or_false] at entry
  rcases entry with rfl | met | rfl
  · exact clear.1 0 (by simp)
  · exact clear.2.1 b member k met
  · exact clear.1 1 (by simp)

/-- The count of buildings around a place of a cut says whether there is one. -/
theorem insideAt_pos_iff (made : d.Made) (holes : d.HolesInBox) (posed : d.Posed p q)
    (long : 0 < p.planarDistance q) {t : ℝ} (inside : 0 ≤ t ∧ t ≤ 1)
    (clear : d.ClearOf p q (2 * Scalar.eps) t) :
    0 < Cut.insideAt (d.finish.cut p q).startInside (d.finish.cut p q).marks
        (t * p.planarDistance q) ↔
      ∃ b ∈ d.buildings, b.outline.contains (Point.between p q t) = true := by
  have positive := Scalar.eps_pos
  have offStart := clear.1 0 (by simp)
  have offEnd := clear.1 1 (by simp)
  rw [sub_zero, abs_of_nonneg inside.1] at offStart
  rw [abs_of_nonpos (by linarith)] at offEnd
  have parts : ∀ b ∈ d.buildings, Within t (b.outline.insideParts p q) ↔
      b.outline.contains (Point.between p q t) = true := fun b member =>
    Polygon.within_insideParts_iff ((made.sound.buildingDrawn b member).framed (holes.1 b member))
      (posed.1 b member) inside (clear.building member)
  rw [Scene.insideAt_pos_iff long]
  constructor
  · rintro ⟨found, isFound, entered, notLeft⟩
    obtain ⟨i, -, listed⟩ := List.mem_flatMap.1 isFound
    obtain ⟨b, roof, entry, -, ⟨ta, tb⟩, isPart, rfl⟩ := Scene.mem_partsInside.1 listed
    have member : b ∈ d.buildings := Array.mem_of_getElem? entry
    obtain ⟨e, piece, -⟩ := Polygon.exists_piece_of_mem_insideParts isPart
    have offPart := (clear.building member).tidy ta (Sequence.mem_of_mem_adjacent piece).1
    dsimp only at entered notLeft
    refine ⟨b, member, (parts b member).1 ⟨(ta, tb), isPart, ?_, ?_⟩⟩
    · rcases entered with near | before
      · exact near.trans_lt (by linarith)
      · refine before.lt_of_ne fun same => ?_
        rw [same, sub_self, abs_zero] at offPart
        linarith
    · by_contra left
      exact notLeft ⟨by linarith, not_lt.1 left⟩
  · rintro ⟨b, member, holds⟩
    obtain ⟨⟨ta, tb⟩, isPart, before, after⟩ := (parts b member).2 holds
    obtain ⟨i, entry⟩ := Array.mem_iff_getElem?.1 member
    have found := mem_along_of_meets made holes ⟨b, entry, t, inside.1, inside.2, holds⟩
    have isRoof : d.finish.roofs[i]?
        = some (b.roof (groundElevation d.finish.relief d.defaults)) := by
      simp only [finish, Array.getElem?_map, entry, Option.map_some]
    refine ⟨(i, _, ta, tb), List.mem_flatMap.2 ⟨i, found,
      Scene.mem_partsInside.2 ⟨b, _, entry, isRoof, (ta, tb), isPart, rfl⟩⟩, .inr before.le, ?_⟩
    exact fun left => after.not_ge left.2

/-- The spans of a cut have lengths and cover it.  Off the ends and the boundary crossings
of the cut, where every edge is parallel to the cut or clearly turns from it, the span at a
place is hard if some building is around the place, and otherwise has the factor of the
ground there, up to the tolerance. -/
theorem spans_spec (made : d.Made) (holes : d.HolesInBox) (long : 0 < p.planarDistance q)
    (posed : d.Posed p q) :
    (∀ span ∈ (d.finish.cut p q).spans, 0 < span.length) ∧
    ((d.finish.cut p q).spans.map Span.length).sum = p.planarDistance q ∧
    ∀ t, 0 < t → t < 1 → d.ClearOf p q (10 * Scalar.eps) t →
      ∃ span, Cut.spanAt (d.finish.cut p q).spans (t * p.planarDistance q) = some span ∧
        ((∃ b ∈ d.buildings, b.outline.contains (Point.between p q t) = true) → span.factor = 0) ∧
        ((∀ b ∈ d.buildings, b.outline.contains (Point.between p q t) = false) →
          |span.factor - d.finish.groundFactor (Point.between p q t)| ≤ Scalar.eps) := by
  have positive := Scalar.eps_pos
  obtain ⟨lengths, sum⟩ := Cut.lengths_spansFrom (d.finish.cut p q).startFactor
    (d.finish.cut p q).startInside long.le
    fun m => Scene.distance_le_of_mem_cut (s := d.finish) (m := m)
  refine ⟨lengths, sum.trans (sub_zero _), fun t start stop clear => ?_⟩
  have inside : 0 ≤ t ∧ t ≤ 1 := ⟨start.le, stop.le⟩
  have less : 2 * (Scalar.eps : ℝ) ≤ 10 * Scalar.eps := by linarith
  have closer : ∀ positions, Clear (10 * Scalar.eps) t positions →
      Clear (2 * Scalar.eps) t positions :=
    fun positions far k entry => less.trans (far k entry)
  have clear : d.ClearOf p q (2 * Scalar.eps) t :=
    ⟨closer _ clear.1, fun b member => closer _ (clear.2.1 b member),
      fun a member => closer _ (clear.2.2 a member)⟩
  obtain ⟨span, covers, factor⟩ := Cut.exists_spanAt (d.finish.cut p q).startFactor
    (d.finish.cut p q).startInside (d.finish.sorted_cut p q)
    (mul_nonneg start.le long.le) (mul_lt_of_lt_one_left long stop)
  rw [sub_zero] at covers
  refine ⟨span, covers, fun held => ?_, fun free => ?_⟩
  · rw [factor, Cut.hardened, if_pos ((insideAt_pos_iff made holes posed long inside clear).2 held)]
  · have outside := mt (insideAt_pos_iff made holes posed long inside clear).1 (by
      rintro ⟨b, member, holds⟩
      rw [free b member] at holds
      exact Bool.noConfusion holds)
    have offGround : Clear (2 * Scalar.eps) t ([0, 1] ++ d.finish.areaCrossings p q) := by
      intro k entry
      rcases List.mem_append.1 entry with atEnd | crossing
      · exact clear.1 k atEnd
      · obtain ⟨i, -, area, isArea, met⟩ := Scene.mem_areaCrossings.1 crossing
        exact clear.2.2 area (Array.mem_of_getElem? isArea) k met
    obtain ⟨a, b, part, before, after⟩ :=
      exists_piece (by simp) (by simp) inside.1 inside.2 offGround
    rw [factor, Cut.hardened, if_neg outside, ← partFactor_eq made holes posed part inside before
      after]
    exact Scene.factorAt_cut long part (by linarith) (by linarith)

end Draft

theorem blockDraft_posed : blockDraft.Posed ⟨0, 0, 1⟩ ⟨0, 30, 4⟩ := by
  refine ⟨?_, by simp [blockDraft, Draft.empty]⟩
  simp [blockDraft, Polygon.edges, Polygon.rings, blockOutline, blockRing, Sequence.cyclic,
    Posed, Displacement.cross, Displacement.dot, Scalar.eps_eq]
  rintro a b (⟨rfl, rfl⟩ | ⟨rfl, rfl⟩ | ⟨rfl, rfl⟩ | ⟨rfl, rfl⟩) <;> norm_num [abs_of_neg]

/-! ## A cut over a lawn and a terrace -/

/-- A strip across the way to the north. -/
noncomputable def strip (south north : ℝ) : Polygon ℝ :=
  ⟨[⟨-10.0, south, 0⟩, ⟨10.0, south, 0⟩, ⟨10.0, north, 0⟩, ⟨-10.0, north, 0⟩], [],
    Box.around ⟨-10.0, south, 0⟩ [⟨10.0, south, 0⟩, ⟨10.0, north, 0⟩, ⟨-10.0, north, 0⟩]⟩

section Strip

variable {south north : ℝ}

theorem strip_edges : (strip south north).edges =
    [(⟨-10, south, 0⟩, ⟨10, south, 0⟩), (⟨10, south, 0⟩, ⟨10, north, 0⟩),
      (⟨10, north, 0⟩, ⟨-10, north, 0⟩), (⟨-10, north, 0⟩, ⟨-10, south, 0⟩)] := by
  norm_num [Polygon.edges, Polygon.rings, strip, Sequence.cyclic]

theorem strip_drawn (wide : south + 1 ≤ north) : (strip south north).Drawn := by
  refine Polygon.drawn_of_pairwise (by simp) ?_ ?_
  · have apart : (1 / 1000000000 : ℝ) ≤ |north - south| :=
      le_trans (by linarith) (le_abs_self _)
    simp [Point.samePlanar, Scalar.eps_eq]
    norm_num [apart]
  · simp [Ring.area, Sequence.cyclic, Scalar.eps_eq]
    rw [abs_of_nonneg (by norm_num), abs_of_nonneg (by linarith)]
    linarith

theorem strip_framed (wide : south + 1 ≤ north) : (strip south north).Framed :=
  (strip_drawn wide).framed (by simp [Polygon.HolesInBox, strip])

/-- A place of the way north lies in the strip if it is between the two long sides. -/
theorem strip_contains (wide : south + 1 ≤ north) (y z : ℝ) :
    (strip south north).contains ⟨0, y, z⟩ = true ↔ south ≤ y ∧ y < north := by
  rw [Polygon.contains_iff_odd (strip_framed wide)]
  norm_num [strip_edges, List.countP_cons, Polygon.meetsRay_iff]
  by_cases low : y < south
  · simp [low, low.trans (by linarith : south < north)]
  · by_cases high : y < north <;> simp [low, high, not_lt.1 low]

theorem strip_posed : ∀ e ∈ (strip south north).edges, Posed ⟨0, 0, 1⟩ ⟨0, 30, 4⟩ e := by
  simp [strip_edges, Posed, Displacement.cross, Displacement.dot, Scalar.eps_eq]
  norm_num [abs_of_neg]

/-- The way north meets a side across it at the side's share of the way. -/
theorem eq_of_mem_positions_side {y : ℝ} (start : 0 ≤ y) (stop : y ≤ 30) {a k : ℝ}
    (long : a = 10 ∨ a = -10)
    (position : k ∈ (Crossing.of ⟨0, 0, 1⟩ ⟨0, 30, 4⟩ ⟨-a, y, 0⟩ ⟨a, y, 0⟩).positions) :
    k = y / 30 := by
  have share : 20 * y / 600 = y / 30 := by ring
  have inside : Scalar.clamp 0 1 (y / 30) = y / 30 :=
    Scalar.clamp_of_mem (by linarith) (by linarith)
  rcases long with rfl | rfl <;>
  · norm_num [Crossing.of, Displacement.cross, Displacement.dot, Scalar.eps_eq, mul_comm y,
      share, inside] at position
    split_ifs at position
    · simpa [Crossing.positions] using position
    · simp [Crossing.positions] at position

/-- The way north does not meet a side along it. -/
theorem positions_along (a y y' : ℝ) (long : a = 10 ∨ a = -10) :
    (Crossing.of ⟨0, 0, 1⟩ ⟨0, 30, 4⟩ ⟨a, y, 0⟩ ⟨a, y', 0⟩).positions = [] := by
  rcases long with rfl | rfl <;>
    norm_num [Crossing.of, Crossing.ofParallel, Displacement.cross, Displacement.dot,
      Scalar.eps_eq, Crossing.positions]

/-- The way north meets the strip at its two long sides. -/
theorem eq_of_mem_strip_boundaryCrossings (start : 0 ≤ south) (between : south ≤ north)
    (stop : north ≤ 30) {k : ℝ}
    (met : k ∈ (strip south north).boundaryCrossings ⟨0, 0, 1⟩ ⟨0, 30, 4⟩) :
    k = south / 30 ∨ k = north / 30 := by
  obtain ⟨e, edge, position⟩ := Polygon.exists_of_mem_boundaryCrossings met
  simp only [strip_edges, List.mem_cons, List.not_mem_nil, or_false] at edge
  rcases edge with rfl | rfl | rfl | rfl
  · exact .inl (eq_of_mem_positions_side start (between.trans stop) (.inl rfl) position)
  · rw [positions_along _ _ _ (.inl rfl)] at position
    simp at position
  · refine .inr (eq_of_mem_positions_side (start.trans between) stop (.inr rfl) ?_)
    simpa using position
  · rw [positions_along _ _ _ (.inr rfl)] at position
    simp at position

/-- Places a metre apart have shares of the way that are told apart. -/
theorem eps_le_of_metre {y side : ℝ} (far : 1 ≤ |y - side|) :
    10 * Scalar.eps ≤ |y / 30 - side / 30| := by
  rw [← sub_div, abs_div, Scalar.eps_eq]
  norm_num
  linarith

/-- A place a metre from both long sides is clear of the strip. -/
theorem strip_clear (start : 0 ≤ south) (between : south ≤ north) (stop : north ≤ 30) {y : ℝ}
    (offSouth : 1 ≤ |y - south|) (offNorth : 1 ≤ |y - north|) :
    Clear (10 * Scalar.eps) (y / 30)
      ((strip south north).boundaryCrossings ⟨0, 0, 1⟩ ⟨0, 30, 4⟩) := by
  intro k met
  rcases eq_of_mem_strip_boundaryCrossings start between stop met with rfl | rfl
  · exact eps_le_of_metre offSouth
  · exact eps_le_of_metre offNorth

end Strip

/-- A lawn before two terraces, the second built into the first. -/
noncomputable def terrace : Draft ℝ :=
  { Draft.empty with
    buildings := #[⟨strip 10.0 20.0, .absolute 10.0, none⟩, ⟨strip 15.0 25.0, .absolute 6.0, none⟩]
    areas := #[⟨strip 2.0 8.0, 0.9⟩]
    defaults := ⟨0.4, 0, 0.1⟩ }

theorem terrace_buildings : terrace.buildings
    = #[⟨strip 10 20, .absolute 10, none⟩, ⟨strip 15 25, .absolute 6, none⟩] := by
  norm_num [terrace]

theorem terrace_areas : terrace.areas = #[⟨strip 2 8, 0.9⟩] := by
  norm_num [terrace]

theorem terrace_made : terrace.Made := by
  have ground : Draft.Made { Draft.empty with defaults := ⟨0.4, 0, 0.1⟩ } :=
    .edit (e := .defaultGround 0.4) .empty trivial
      (Draft.edit_eq_ok_iff.2 ⟨Draft.unitInterval_iff.2 (by norm_num), rfl⟩)
  have lawn : Draft.Made
      { Draft.empty with areas := #[⟨strip 2.0 8.0, 0.9⟩], defaults := ⟨0.4, 0, 0.1⟩ } :=
    .edit (e := .area ⟨strip 2.0 8.0, 0.9⟩) ground (strip_drawn (by norm_num))
      (Draft.edit_eq_ok_iff.2 ⟨Draft.unitInterval_iff.2 (by norm_num), rfl⟩)
  exact .edit (e := .building ⟨strip 15.0 25.0, .absolute 6.0, none⟩)
    (.edit (e := .building ⟨strip 10.0 20.0, .absolute 10.0, none⟩) lawn
      (strip_drawn (by norm_num)) rfl)
    (strip_drawn (by norm_num)) rfl

theorem terrace_holesInBox : terrace.HolesInBox := by
  constructor <;> simp [terrace, strip, Polygon.HolesInBox]

theorem terrace_posed : terrace.Posed ⟨0, 0, 1⟩ ⟨0, 30, 4⟩ := by
  simpa [Draft.Posed, terrace_buildings, terrace_areas] using
    (⟨⟨fun a b => strip_posed (a, b), fun a b => strip_posed (a, b)⟩,
      fun a b => strip_posed (a, b)⟩ : (_ ∧ _) ∧ _)

theorem terrace_clearOf {y : ℝ} (clear : ∀ side ∈ [0, 2, 8, 10, 15, 20, 25, 30], 1 ≤ |y - side|) :
    terrace.ClearOf ⟨0, 0, 1⟩ ⟨0, 30, 4⟩ (10 * Scalar.eps) (y / 30) := by
  simp only [List.mem_cons, List.not_mem_nil, or_false, forall_eq_or_imp, forall_eq] at clear
  obtain ⟨off0, off2, off8, off10, off15, off20, off25, off30⟩ := clear
  refine ⟨?_, ?_, ?_⟩
  · simpa [Clear] using And.intro (eps_le_of_metre off0) (eps_le_of_metre off30)
  · simp [terrace_buildings]
    exact ⟨strip_clear (by norm_num) (by norm_num) (by norm_num) off10 off20,
      strip_clear (by norm_num) (by norm_num) (by norm_num) off15 off25⟩
  · simpa [terrace_areas] using strip_clear (by norm_num) (by norm_num) (by norm_num) off2 off8

theorem terrace_groundFactor (y z : ℝ) :
    terrace.finish.groundFactor ⟨0, y, z⟩ = if 2 ≤ y ∧ y < 8 then 0.9 else 0.4 := by
  rw [Draft.finish_groundFactor terrace_made terrace_holesInBox]
  have lawn : (strip 2 8).contains ⟨0, y, z⟩ = true ↔ 2 ≤ y ∧ y < 8 :=
    strip_contains (by norm_num) y z
  have found : terrace.finish.factorIn ⟨0, y, z⟩ 0 = if 2 ≤ y ∧ y < 8 then some 0.9 else none := by
    have area : terrace.finish.areas[0]? = some ⟨strip 2 8, 0.9⟩ :=
      congrArg (·[0]?) terrace_areas
    simp only [Scene.factorIn, area, lawn]
  change (List.findSome? (terrace.finish.factorIn ⟨0, y, z⟩) [0]).getD 0.4 = _
  rw [List.findSome?_cons, found]
  split_ifs <;> rfl

theorem terrace_contains (y z : ℝ) : (∃ b ∈ terrace.buildings, b.outline.contains ⟨0, y, z⟩ = true)
    ↔ (10 ≤ y ∧ y < 20) ∨ (15 ≤ y ∧ y < 25) := by
  have first : (strip 10 20).contains ⟨0, y, z⟩ = true ↔ 10 ≤ y ∧ y < 20 :=
    strip_contains (by norm_num) y z
  have second : (strip 15 25).contains ⟨0, y, z⟩ = true ↔ 15 ≤ y ∧ y < 25 :=
    strip_contains (by norm_num) y z
  simp [terrace_buildings, first, second]

/-- The cut from a place before the lawn to one beyond the terraces has the factor of the
lawn there, that of the ground beside it, and is hard under both terraces and under one. -/
theorem terrace_spans :
    terrace.Made ∧ terrace.HolesInBox ∧ terrace.Posed ⟨0, 0, 1⟩ ⟨0, 30, 4⟩ ∧
      (∀ span ∈ (terrace.finish.cut ⟨0, 0, 1⟩ ⟨0, 30, 4⟩).spans, 0 < span.length) ∧
      ((terrace.finish.cut ⟨0, 0, 1⟩ ⟨0, 30, 4⟩).spans.map Span.length).sum = 30 ∧
      (∃ span, Cut.spanAt (terrace.finish.cut ⟨0, 0, 1⟩ ⟨0, 30, 4⟩).spans 5 = some span ∧
        |span.factor - 0.9| ≤ Scalar.eps) ∧
      (∃ span, Cut.spanAt (terrace.finish.cut ⟨0, 0, 1⟩ ⟨0, 30, 4⟩).spans 9 = some span ∧
        |span.factor - 0.4| ≤ Scalar.eps) ∧
      (∃ span, Cut.spanAt (terrace.finish.cut ⟨0, 0, 1⟩ ⟨0, 30, 4⟩).spans 18 = some span ∧
        span.factor = 0) ∧
      ∃ span, Cut.spanAt (terrace.finish.cut ⟨0, 0, 1⟩ ⟨0, 30, 4⟩).spans 22 = some span ∧
        span.factor = 0 := by
  have length : Point.planarDistance (⟨0, 0, 1⟩ : Point ℝ) ⟨0, 30, 4⟩ = 30 := by
    rw [Point.planarDistance_eq]
    norm_num
  have between : ∀ y : ℝ, Point.between ⟨0, 0, 1⟩ ⟨0, 30, 4⟩ (y / 30) = ⟨0, y, 1 + y / 10⟩ := by
    intro y
    simp [Point.between]
    ring_nf
    simp
  obtain ⟨positive, sum, along⟩ := Draft.spans_spec (p := ⟨0, 0, 1⟩) (q := ⟨0, 30, 4⟩)
    terrace_made terrace_holesInBox (by rw [length]; norm_num) terrace_posed
  have place : ∀ y : ℝ, 0 < y → y < 30 →
      (∀ side ∈ [0, 2, 8, 10, 15, 20, 25, 30], 1 ≤ |y - side|) →
      ∃ span, Cut.spanAt (terrace.finish.cut ⟨0, 0, 1⟩ ⟨0, 30, 4⟩).spans y = some span ∧
        ((10 ≤ y ∧ y < 20) ∨ (15 ≤ y ∧ y < 25) → span.factor = 0) ∧
        (¬((10 ≤ y ∧ y < 20) ∨ (15 ≤ y ∧ y < 25)) →
          |span.factor - if 2 ≤ y ∧ y < 8 then 0.9 else 0.4| ≤ Scalar.eps) := by
    intro y start stop clear
    obtain ⟨span, covers, hard, soft⟩ :=
      along (y / 30) (by linarith) (by linarith) (terrace_clearOf clear)
    rw [length, div_mul_cancel₀ _ (by norm_num)] at covers
    rw [between, terrace_contains] at hard
    rw [between, terrace_groundFactor] at soft
    refine ⟨span, covers, hard, fun free => soft fun b member => ?_⟩
    rw [← Bool.not_eq_true]
    exact fun holds => free ((terrace_contains y _).1 ⟨b, member, holds⟩)
  obtain ⟨lawn, atLawn, -, soft⟩ := place 5 (by norm_num) (by norm_num) (by norm_num [abs_of_neg])
  obtain ⟨verge, atVerge, -, bare⟩ := place 9 (by norm_num) (by norm_num) (by norm_num [abs_of_neg])
  obtain ⟨both, atBoth, under, -⟩ := place 18 (by norm_num) (by norm_num) (by norm_num [abs_of_neg])
  obtain ⟨one, atOne, beneath, -⟩ := place 22 (by norm_num) (by norm_num) (by norm_num [abs_of_neg])
  refine ⟨terrace_made, terrace_holesInBox, terrace_posed, positive, sum.trans length,
    ⟨lawn, atLawn, ?_⟩, ⟨verge, atVerge, ?_⟩, ⟨both, atBoth, under (by norm_num)⟩,
    one, atOne, beneath (by norm_num)⟩
  · have known := soft (by norm_num)
    rwa [if_pos (by norm_num)] at known
  · have known := bare (by norm_num)
    rwa [if_neg (by norm_num)] at known

end RoadNoise
