/-
# RoadNoise.Proofs.Vertices -- which topographic points become vertices

The vertices of a relief are its points in order, without those that share the position of
the vertex before.  So each point has a vertex that stands for it, the last that does not
come after it (`Stands`), and of points with the same coordinates the first inserted is the
only one that can be a vertex (`Relief.vertices_first`).

For positions that are shared within the tolerance more is needed.  Two vertices share a
position as soon as another point lies between them in order, which it may do a long way off
to the north, and the vertex of a position is the point furthest to the west, whichever was
inserted first (`ledge_doubled`).  Both are told exactly where the points fall into groups at
all: no two vertices share a position if and only if no group is broken up by the order, and
then the first inserted of a group is its vertex if and only if no other point of the group
comes before it.
-/
import RoadNoise.Proofs.Cleaned
import RoadNoise.Proofs.Comparison
import RoadNoise.Proofs.Relief

set_option autoImplicit false

namespace RoadNoise

/-! ## Sorted lists without repeats -/

namespace Sequence

variable {β : Type} {order : β → β → Ordering} {same : β → β → Bool}

/-- Where what lies between two entries that are the same is the same as well, neighbours tell
of all pairs. -/
theorem pairwise_of_apart {l : List β} (sorted : l.Pairwise fun a b => (order a b).isLE = true)
    (apart : ∀ a b, (a, b) ∈ adjacent l → same b a = false)
    (gathered : ∀ u ∈ l, ∀ v ∈ l, ∀ w ∈ l, (order u v).isLE = true → (order v w).isLE = true →
      same w u = true → same v u = true) :
    l.Pairwise fun a b => same b a = false := by
  induction l with
  | nil => exact .nil
  | cons a l ih =>
      obtain ⟨least, later⟩ := List.pairwise_cons.1 sorted
      refine List.pairwise_cons.2 ⟨fun c member => ?_, ih later ?_ ?_⟩
      · cases l with
        | nil => simp at member
        | cons b l =>
            have next : same b a = false := apart a b (by simp [adjacent_cons_cons])
            rcases List.mem_cons.1 member with rfl | beyond
            · exact next
            · by_contra repeated
              have between := gathered a (by simp) b (by simp) c
                (List.mem_cons_of_mem _ member) (least b (by simp))
                ((List.pairwise_cons.1 later).1 c beyond) (by simpa using repeated)
              rw [next] at between
              exact absurd between (by decide)
      · intro b c pair
        apply apart
        cases l with
        | nil => simp [adjacent] at pair
        | cons d l => exact List.mem_cons_of_mem _ pair
      · intro u first v second w third
        exact gathered u (List.mem_cons_of_mem _ first) v (List.mem_cons_of_mem _ second) w
          (List.mem_cons_of_mem _ third)

variable [Std.TransCmp order]

/-- Entries that compare equal keep the order they came in. -/
theorem filter_sortOn (l : List β) (a : β) :
    (sortOn order l).filter (fun b => order a b == .eq) = l.filter fun b => order a b == .eq := by
  let tied : β → Bool := fun b => order a b == .eq
  have level : (l.filter tied).Pairwise fun b c => (order b c).isLE = true := by
    refine List.pairwise_filter.2 (List.pairwise_of_forall fun b c tieB tieC => ?_)
    have tieB : order a b = .eq := by simpa [tied] using tieB
    have tieC : order a c = .eq := by simpa [tied] using tieC
    exact Ordering.isLE_of_eq_eq (Std.TransCmp.eq_trans (Std.OrientedCmp.eq_symm tieB) tieC)
  have kept : (l.filter tied).Sublist (sortOn order l) :=
    List.sublist_mergeSort (fun _ _ _ => Std.TransCmp.isLE_trans)
      (fun b c => by simpa using isLE_or_isLE order b c) level List.filter_sublist
  have again := kept.filter tied
  simp only [List.filter_filter, Bool.and_self] at again
  refine (again.eq_of_length ?_).symm
  exact ((sortOn_perm order l).filter tied).length_eq.symm

theorem find?_sortOn (l : List β) (a : β) :
    (sortOn order l).find? (fun b => order a b == .eq) = l.find? fun b => order a b == .eq := by
  rw [← List.head?_filter, filter_sortOn, List.head?_filter]

section Kept

variable {last b k : β} {l : List β}
  (alike : ∀ a b, order a b = .eq → ∀ c, same a c = same b c)

include alike

/-- What repeats the entry that was kept last takes all that compares equal to it along. -/
theorem not_tied_of_mem_thinAfter (sorted : l.Pairwise fun a b => (order a b).isLE = true)
    (before : ∀ c ∈ l, (order b c).isLE = true) (repeated : same b last = true)
    (kept : k ∈ thinAfter same last l) : order b k ≠ .eq := by
  induction l with
  | nil => simp [thinAfter] at kept
  | cons c l ih =>
      obtain ⟨least, later⟩ := List.pairwise_cons.1 sorted
      obtain ⟨here, beyond⟩ := List.forall_mem_cons.1 before
      by_cases tie : order b c = .eq
      · have dropped : same c last = true := (alike b c tie last).symm.trans repeated
        rw [thinAfter, if_pos dropped] at kept
        exact ih later beyond kept
      · have west : order b c = .lt := by
          cases told : order b c with
          | lt => rfl
          | eq => exact absurd told tie
          | gt => simp [told] at here
        have entry := (thinAfter_sublist same last (c :: l)).subset kept
        have above : (order c k).isLE = true := by
          rcases List.mem_cons.1 entry with rfl | entry
          · exact Std.ReflCmp.isLE_rfl
          · exact least k entry
        rw [Std.TransCmp.lt_of_lt_of_isLE west above]
        decide

variable (refl : ∀ c ∈ last :: l, same c c = true)

include refl

/-- An entry that is kept is the first of those that compare equal to it. -/
theorem find?_of_mem_thinAfter
    (sorted : (last :: l).Pairwise fun a b => (order a b).isLE = true)
    (kept : k ∈ last :: thinAfter same last l) :
    (last :: l).find? (fun c => order k c == .eq) = some k := by
  have level : ∀ a, order a a = .eq := fun _ => Std.ReflCmp.compare_self
  induction l generalizing last with
  | nil =>
      obtain rfl : k = last := by simpa [thinAfter] using kept
      simp [level k]
  | cons c l ih =>
      obtain ⟨least, rest⟩ := List.pairwise_cons.1 sorted
      rcases List.mem_cons.1 kept with rfl | kept
      · simp [level k]
      · have repeated : same last last = true := refl last (by simp)
        have other : order k last ≠ .eq := fun tie =>
          not_tied_of_mem_thinAfter alike rest least repeated kept (Std.OrientedCmp.eq_symm tie)
        rw [List.find?_cons_of_neg (by simpa using other)]
        rw [thinAfter] at kept
        split_ifs at kept with dropped
        · have fewer := (List.sublist_cons_self c l).cons_cons last
          have next := ih (fun d member => refl d (fewer.subset member)) (sorted.sublist fewer)
            (List.mem_cons_of_mem _ kept)
          have apart : order k c ≠ .eq := fun tie => not_tied_of_mem_thinAfter alike
            (List.pairwise_cons.1 rest).2 (List.pairwise_cons.1 rest).1 dropped kept
            (Std.OrientedCmp.eq_symm tie)
          rw [List.find?_cons_of_neg (by simpa using apart)]
          rwa [List.find?_cons_of_neg (by simpa using other)] at next
        · exact ih (fun d member => refl d (List.mem_cons_of_mem _ member)) rest kept

/-- Every entry is the same as the last that was kept and does not come after it. -/
theorem exists_last_thinAfter
    (sorted : (last :: l).Pairwise fun a b => (order a b).isLE = true) (entry : b ∈ last :: l) :
    ∃ k ∈ last :: thinAfter same last l, same b k = true ∧ (order k b).isLE = true ∧
      ∀ j ∈ last :: thinAfter same last l, (order j b).isLE = true → (order j k).isLE = true := by
  induction l generalizing last with
  | nil =>
      obtain rfl : b = last := by simpa using entry
      exact ⟨b, by simp, refl b (by simp), Std.ReflCmp.isLE_rfl, fun j _ before => before⟩
  | cons c l ih =>
      obtain ⟨least, rest⟩ := List.pairwise_cons.1 sorted
      rw [thinAfter]
      split_ifs with dropped
      · have fewer := (List.sublist_cons_self c l).cons_cons last
        by_cases here : b = c
        · subst here
          refine ⟨last, by simp, dropped, least b (by simp), fun j kept before => ?_⟩
          rcases List.mem_cons.1 kept with rfl | kept
          · exact Std.ReflCmp.isLE_rfl
          · -- what is kept later lies strictly beyond `b`
            obtain ⟨next, later⟩ := List.pairwise_cons.1 rest
            have after := next j ((thinAfter_sublist same last l).subset kept)
            exact absurd (Std.OrientedCmp.isLE_antisymm after before)
              (not_tied_of_mem_thinAfter alike later next dropped kept)
        · have entry : b ∈ last :: l := by simpa [here] using entry
          exact ih (fun d member => refl d (fewer.subset member)) (sorted.sublist fewer) entry
      · rcases List.mem_cons.1 entry with rfl | entry
        · exact ⟨b, by simp, refl b (by simp), Std.ReflCmp.isLE_rfl, fun j _ before => before⟩
        · obtain ⟨k, kept, isSame, before, final⟩ :=
            ih (fun d member => refl d (List.mem_cons_of_mem _ member)) rest entry
          refine ⟨k, List.mem_cons_of_mem _ kept, isSame, before, fun j keptJ beforeJ => ?_⟩
          rcases List.mem_cons.1 keptJ with rfl | keptJ
          · exact least k (((thinAfter_sublist same c l).cons_cons c).subset kept)
          · exact final j keptJ beforeJ

end Kept

section Thinned

variable {l : List β} {b k : β} (alike : ∀ a b, order a b = .eq → ∀ c, same a c = same b c)
  (refl : ∀ c ∈ l, same c c = true) (sorted : l.Pairwise fun a b => (order a b).isLE = true)

include alike refl sorted

theorem find?_of_mem_thin (kept : k ∈ thin same l) :
    l.find? (fun c => order k c == .eq) = some k := by
  cases l with
  | nil => simp [thin] at kept
  | cons a l => exact find?_of_mem_thinAfter alike refl sorted kept

theorem exists_last_thin (entry : b ∈ l) :
    ∃ k ∈ thin same l, same b k = true ∧ (order k b).isLE = true ∧
      ∀ j ∈ thin same l, (order j b).isLE = true → (order j k).isLE = true := by
  cases l with
  | nil => simp at entry
  | cons a l => exact exists_last_thinAfter alike refl sorted entry

end Thinned

/-- The first entry of a kind is the first of a narrower kind that it belongs to. -/
theorem find?_eq_some_of_imp {p q : β → Bool} {l : List β} {a : β} (found : l.find? p = some a)
    (narrower : ∀ b, q b = true → p b = true) (belongs : q a = true) : l.find? q = some a := by
  obtain ⟨-, front, back, rfl, others⟩ := List.find?_eq_some_iff_append.1 found
  refine List.find?_eq_some_iff_append.2 ⟨belongs, front, back, rfl, fun b earlier => ?_⟩
  have out := others b earlier
  cases inner : q b with
  | false => rfl
  | true => simp [narrower b inner] at out

end Sequence

variable {α : Type} [Scalar α]

/-! ## Positions -/

namespace Point

variable [Scalar.Sharp α] {p q : Point α}

theorem samePlanar_self (finite : p.isFinite = true) : p.samePlanar p = true :=
  samePlanar_of_order_eq finite finite Std.ReflCmp.compare_self

/-- Points that compare equal have the same coordinates. -/
theorem samePlanar_congr (p q : Point α) (tie : p.order q = .eq) (r : Point α) :
    p.samePlanar r = q.samePlanar r := by
  obtain ⟨tieX, tieY⟩ := Ordering.then_eq_eq.1 tie
  rw [samePlanar, samePlanar, Scalar.Sharp.eq_of_order_eq tieX, Scalar.Sharp.eq_of_order_eq tieY]

end Point

/-! ## Vertices -/

namespace Relief

/-- A vertex that shares the position of a point and is the last, in order, that does not come
after it. -/
structure Stands (points : List (Point α)) (v p : Point α) : Prop where
  kept : v ∈ verticesOf points
  same : p.samePlanar v = true
  before : (v.order p).isLE = true
  last : ∀ w ∈ verticesOf points, (w.order p).isLE = true → (w.order v).isLE = true

/-- Positions that are shared with one point are shared with each other, so the points fall
into groups, one for each position. -/
def Grouped (points : List (Point α)) : Prop :=
  ∀ u ∈ points, ∀ v ∈ points, ∀ w ∈ points,
    u.samePlanar v = true → v.samePlanar w = true → u.samePlanar w = true

/-- What lies in order between two points of one position shares it. -/
def Gathered (points : List (Point α)) : Prop :=
  ∀ u ∈ points, ∀ v ∈ points, ∀ w ∈ points,
    (u.order v).isLE = true → (v.order w).isLE = true → u.samePlanar w = true →
      u.samePlanar v = true

/-- No two vertices share a position. -/
def Apart (vertices : List (Point α)) : Prop :=
  vertices.Pairwise fun u v => u.samePlanar v = false

variable [Scalar.Sharp α] {points : List (Point α)} {p f v w : Point α}

theorem sorted_verticesOf (points : List (Point α)) :
    (verticesOf points).Pairwise fun u v => (u.order v).isLE = true :=
  (Sequence.sorted_sortOn Point.order points).sublist (Sequence.thin_sublist _ _)

theorem apart_of_mem_adjacent {u v : Point α}
    (pair : (u, v) ∈ Sequence.adjacent (verticesOf points)) : u.samePlanar v = false := by
  rw [Point.samePlanar_comm]
  exact Sequence.apart_thin pair

theorem apart_of_gathered (gathered : Gathered points) : Apart (verticesOf points) := by
  show (verticesOf points).Pairwise fun u v => u.samePlanar v = false
  apply Sequence.pairwise_of_apart (sorted_verticesOf points)
  · intro u v pair
    exact apart_of_mem_adjacent pair
  · intro u first v second w third
    exact gathered u (mem_verticesOf first) v (mem_verticesOf second) w (mem_verticesOf third)

section Finite

variable (finite : ∀ p ∈ points, p.isFinite = true)

include finite

theorem find?_of_mem_verticesOf (vertex : v ∈ verticesOf points) :
    points.find? (fun p => v.order p == .eq) = some v := by
  rw [← Sequence.find?_sortOn]
  refine Sequence.find?_of_mem_thin Point.samePlanar_congr (fun p member => ?_)
    (Sequence.sorted_sortOn Point.order points) vertex
  exact Point.samePlanar_self (finite p (Sequence.mem_sortOn.1 member))

theorem exists_stands (member : p ∈ points) : ∃ v, Stands points v p := by
  obtain ⟨v, kept, same, before, last⟩ := Sequence.exists_last_thin Point.samePlanar_congr
    (fun q member => Point.samePlanar_self (finite q (Sequence.mem_sortOn.1 member)))
    (Sequence.sorted_sortOn Point.order points) (Sequence.mem_sortOn.2 member)
  exact ⟨v, kept, same, before, last⟩

end Finite

/-! ## Groups -/

theorem Apart.eq_of_samePlanar (apart : Apart (verticesOf points)) (first : v ∈ verticesOf points)
    (second : w ∈ verticesOf points) (same : v.samePlanar w = true) : v = w := by
  have symm : Std.Symm fun u v : Point α => u.samePlanar v = false :=
    ⟨fun u v told => by rwa [Point.samePlanar_comm]⟩
  by_contra other
  rw [List.Pairwise.forall apart first second other] at same
  exact absurd same (by decide)

namespace Grouped

variable (grouped : Grouped points) (finite : ∀ p ∈ points, p.isFinite = true)
  (apart : Apart (verticesOf points))

include grouped apart

/-- Points of one position have one vertex. -/
theorem stands_unique {q : Point α} (memberP : p ∈ points) (memberQ : q ∈ points)
    (same : p.samePlanar q = true) (stands : Stands points v p) (vertex : w ∈ verticesOf points)
    (shared : q.samePlanar w = true) : v = w := by
  have member := mem_verticesOf stands.kept
  have memberW := mem_verticesOf vertex
  have back : v.samePlanar p = true := by
    rw [Point.samePlanar_comm]
    exact stands.same
  have there := grouped v member p memberP q memberQ back same
  exact apart.eq_of_samePlanar stands.kept vertex
    (grouped v member q memberQ w memberW there shared)

include finite

theorem gathered : Gathered points := by
  intro u memU v memV w memW before after same
  obtain ⟨k, standsU⟩ := exists_stands finite memU
  obtain ⟨j, standsV⟩ := exists_stands finite memV
  obtain ⟨i, standsW⟩ := exists_stands finite memW
  obtain rfl := stands_unique grouped apart memU memW same standsU standsW.kept standsW.same
  -- the vertex of the point between lies between the vertices of the other two
  have above := standsV.last k standsU.kept (Std.TransCmp.isLE_trans standsU.before before)
  have below := standsW.last j standsV.kept (Std.TransCmp.isLE_trans standsV.before after)
  have level := Std.OrientedCmp.isLE_antisymm above below
  have shared : k.samePlanar v = true := by
    rw [Point.samePlanar_congr k j level, Point.samePlanar_comm]
    exact standsV.same
  exact grouped u memU k (mem_verticesOf standsU.kept) v memV standsU.same shared

/-- The first inserted of a group is its vertex unless another point of the group comes before
it in order. -/
theorem vertex_iff (member : p ∈ points) (first : points.find? p.samePlanar = some f) :
    (∀ v ∈ verticesOf points, p.samePlanar v = true → v = f) ↔
      ∀ q ∈ points, p.samePlanar q = true → (f.order q).isLE = true := by
  have memF : f ∈ points := List.mem_of_find?_eq_some first
  have sameF : p.samePlanar f = true := List.find?_some first
  constructor
  · intro unique q memQ sameQ
    obtain ⟨k, stands⟩ := exists_stands finite memQ
    have shared := grouped p member q memQ k (mem_verticesOf stands.kept) sameQ stands.same
    obtain rfl := unique k stands.kept shared
    exact stands.before
  · intro least v vertex sameV
    obtain ⟨k, stands⟩ := exists_stands finite memF
    have back : f.samePlanar p = true := by rwa [Point.samePlanar_comm]
    obtain rfl := stands_unique grouped apart memF member back stands vertex sameV
    have level := Std.OrientedCmp.isLE_antisymm stands.before (least k (mem_verticesOf vertex) sameV)
    -- of the points with the coordinates of the vertex none was inserted before it, and `f` is one
    have earliest := Sequence.find?_eq_some_of_imp (q := fun q => k.order q == .eq) first
      (fun q tie => by
        rw [Point.samePlanar_comm, ← Point.samePlanar_congr k q (by simpa using tie),
          Point.samePlanar_comm]
        exact sameV)
      (by simpa using level)
    rw [find?_of_mem_verticesOf finite vertex] at earliest
    exact Option.some.inj earliest

end Grouped

/-- What the vertices are.  Each is the first inserted of the points with its coordinates, and
each point has one that stands for it.  No two share a position where no group of points is
broken up by the order, which is necessary too if there are groups; then the vertex of a group
is the first inserted exactly when no other point of the group comes before that in order. -/
theorem vertices_first (points : List (Point α)) (finite : ∀ p ∈ points, p.isFinite = true) :
    (∀ v ∈ verticesOf points, points.find? (fun p => v.order p == .eq) = some v) ∧
    (∀ p ∈ points, ∃ v, Stands points v p) ∧
    (Gathered points → Apart (verticesOf points)) ∧
    (Grouped points → Apart (verticesOf points) →
      Gathered points ∧ ∀ p ∈ points, ∀ f, points.find? p.samePlanar = some f →
        ((∀ v ∈ verticesOf points, p.samePlanar v = true → v = f) ↔
          ∀ q ∈ points, p.samePlanar q = true → (f.order q).isLE = true)) := by
  refine ⟨fun v vertex => find?_of_mem_verticesOf finite vertex,
    fun p member => exists_stands finite member, apart_of_gathered, fun grouped apart => ?_⟩
  refine ⟨grouped.gathered finite apart, fun p member f first => ?_⟩
  exact grouped.vertex_iff finite apart member first

/-! ### Points close to each other -/

/-- Three points in one place, the first of them furthest to the west. -/
def shelf : List (Point Float) :=
  [⟨0, 0, 1⟩, ⟨0.0000000005, 0, 2⟩, ⟨0, 0, 3⟩, ⟨10, 0, 4⟩, ⟨10, 10, 5⟩]

/-- The place has the first elevation only. -/
theorem shelf_first :
    (∀ p ∈ shelf, p.isFinite = true) ∧ Grouped shelf ∧ Gathered shelf ∧ Apart (verticesOf shelf) ∧
      ∀ v ∈ verticesOf shelf, (⟨0.0000000005, 0, 2⟩ : Point Float).samePlanar v = true →
        v = ⟨0, 0, 1⟩ := by
  have finite : ∀ p ∈ shelf, p.isFinite = true := by decide +kernel
  have grouped : Grouped shelf := by
    unfold Grouped
    decide +kernel
  have gathered : Gathered shelf := by
    unfold Gathered
    decide +kernel
  obtain ⟨-, -, apart, first⟩ := vertices_first shelf finite
  refine ⟨finite, grouped, gathered, apart gathered, ?_⟩
  exact ((first grouped (apart gathered)).2 _ (by decide +kernel) _ (by decide +kernel)).2
    (by decide +kernel)

/-- Two points in one place at different elevations, and a third that lies far to the north but
between them from west to east. -/
def ledge : List (Point Float) :=
  [⟨0, 0, 0⟩, ⟨0.0000000002, 5, 0⟩, ⟨0.0000000004, 0, 7⟩, ⟨10, 0, 0⟩]

/-- Two points in one place, the second of them to the west of the first. -/
def bank : List (Point Float) :=
  [⟨0.0000000005, 0, 1⟩, ⟨0, 0, 5⟩, ⟨10, 0, 1⟩, ⟨10, 10, 1⟩]

/-- Both points of the place on the ledge are vertices, so the place has the second elevation as
well as the first.  The place on the bank has the second elevation only. -/
theorem ledge_doubled :
    (verticesOf ledge = ledge ∧ ¬Apart (verticesOf ledge) ∧
      ledge.find? (⟨0.0000000004, 0, 7⟩ : Point Float).samePlanar = some ⟨0, 0, 0⟩) ∧
    verticesOf bank = [⟨0, 0, 5⟩, ⟨10, 0, 1⟩, ⟨10, 10, 1⟩] ∧
      bank.find? (⟨0, 0, 5⟩ : Point Float).samePlanar = some ⟨0.0000000005, 0, 1⟩ := by
  have sorted : Sequence.sortOn Point.order ledge = ledge :=
    List.mergeSort_of_pairwise (by decide +kernel)
  have kept : verticesOf ledge = ledge := by
    rw [verticesOf, sorted]
    decide +kernel
  have perm : bank.Perm [⟨0, 0, 5⟩, ⟨0.0000000005, 0, 1⟩, ⟨10, 0, 1⟩, ⟨10, 10, 1⟩] :=
    List.Perm.swap _ _ _
  have swapped : Sequence.sortOn Point.order bank
      = [⟨0, 0, 5⟩, ⟨0.0000000005, 0, 1⟩, ⟨10, 0, 1⟩, ⟨10, 10, 1⟩] := by
    rw [Sequence.sortOn_eq_of_perm perm (by decide +kernel)]
    exact List.mergeSort_of_pairwise (by decide +kernel)
  refine ⟨⟨kept, ?_, by decide +kernel⟩, ?_, by decide +kernel⟩
  · rw [kept]
    unfold Apart
    decide +kernel
  · rw [verticesOf, swapped]
    decide +kernel

end Relief

end RoadNoise
