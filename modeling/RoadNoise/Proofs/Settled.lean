/-
# RoadNoise.Proofs.Settled -- sides that run into nothing new

The sides around some obstacles are laid in rounds.  Each round walks along the hull from
the source to the receiver, once onwards and once back, and both walks come to an end
(`Hull.walk_ways`): places of a ring follow each other around, so a walk passes the
receiver before it is back at the source.  What the sides run into joins the included
buildings (`Scene.Joins`), which strictly grow; there are only so many buildings, so the
rounds end as well (`Scene.length_rounds_le`).

The sides of the last round are those that are returned, and no leg of them is
obstructed by a building that is not included (`Scene.sides_settle`).  None of this
depends on the numbers that the sides are computed with.
-/
import RoadNoise.Proofs.Exact
import RoadNoise.Ray.Around

set_option autoImplicit false

namespace RoadNoise

/-! ## Walks in a ring -/

namespace Hull

variable {β : Type} {ring : List β} {i j : Nat}

/-- From place to place by `step` until the goal, with what stands at the places passed. -/
inductive Walk (ring : List β) (step : Nat → Nat) (goal : Nat) : Nat → List β → Prop
  | stop : Walk ring step goal goal []
  | on {i : Nat} {b : β} {passed : List β} (far : i ≠ goal) (here : ring[i]? = some b)
      (rest : Walk ring step goal (step i) passed) : Walk ring step goal i (b :: passed)

/-- A tour that leads back to `i` step by step is a walk up to any place that it meets. -/
theorem walk_takeWhile {step : Nat → Nat} {tour : List (β × Nat)}
    (stands : ∀ e ∈ tour, ring[e.2]? = some e.1)
    (steps : (tour.map Prod.snd ++ [i]).IsChain fun a b => step a = b)
    (met : j ∈ tour.map Prod.snd ++ [i]) {start : Nat}
    (first : (tour.map Prod.snd ++ [i]).head? = some start) :
    Walk ring step j start ((tour.takeWhile fun e => e.2 != j).map Prod.fst) := by
  induction tour generalizing start with
  | nil =>
      obtain rfl : i = start := by simpa using first
      obtain rfl : j = i := by simpa using met
      exact .stop
  | cons e tour ih =>
      obtain rfl : e.2 = start := by simpa using first
      rw [List.map_cons, List.cons_append] at steps met
      by_cases here : e.2 = j
      · rw [List.takeWhile_cons_of_neg (by simpa using here), List.map_nil, here]
        exact .stop
      · rw [List.takeWhile_cons_of_pos (by simpa using here), List.map_cons]
        refine .on here (stands e (by simp)) ?_
        obtain ⟨next, isNext⟩ : ∃ next, (tour.map Prod.snd ++ [i]).head? = some next := by
          cases tour <;> simp
        obtain ⟨later, isLater⟩ := List.head?_eq_some_iff.1 isNext
        rw [isLater, List.isChain_cons_cons, ← isLater] at steps
        rw [steps.1]
        exact ih (fun e' member => stands e' (List.mem_cons_of_mem e member)) steps.2
          ((List.mem_cons.1 met).resolve_left (Ne.symm here)) isNext

/-- The numbers below `n`, from `m` around. -/
theorem getElem?_rotate_range {n m k : Nat} (inside : k < n) :
    ((List.range n).rotate m)[k]? = some ((k + m) % n) := by
  rw [List.getElem?_rotate (by simpa using inside), List.length_range,
    List.getElem?_range (Nat.mod_lt _ (Nat.zero_lt_of_lt inside))]

theorem isChain_rotate_range (n m : Nat) :
    ((List.range n).rotate m).IsChain fun a b => a < n ∧ (a + 1) % n = b := by
  rw [List.isChain_iff_getElem]
  intro k inside
  rw [List.length_rotate, List.length_range] at inside
  rw [List.getElem_rotate, List.getElem_rotate, List.getElem_range, List.getElem_range,
    List.length_range, Nat.mod_add_mod]
  exact ⟨Nat.mod_lt _ (Nat.zero_lt_of_lt inside), by congr 1; omega⟩

/-- The step back undoes the step on. -/
theorem step_back {n a b : Nat} (inside : a < n) (on : (a + 1) % n = b) :
    (b + n - 1) % n = a := by
  rcases Nat.lt_or_ge (a + 1) n with short | full
  · rw [Nat.mod_eq_of_lt short] at on
    rw [← on, show a + 1 + n - 1 = a + n by omega, Nat.add_mod_right, Nat.mod_eq_of_lt inside]
  · obtain rfl : a + 1 = n := by omega
    rw [Nat.mod_self] at on
    rw [← on, Nat.zero_add, Nat.add_sub_cancel, Nat.mod_eq_of_lt inside]

/-- Both ways between two places of a ring are walks, one on and one back. -/
theorem walk_ways (hi : i < ring.length) (hj : j < ring.length) :
    Walk ring (fun k => (k + 1) % ring.length) j ((i + 1) % ring.length) (ways ring i j).1 ∧
      Walk ring (fun k => (k + ring.length - 1) % ring.length) j
        ((i + ring.length - 1) % ring.length) (ways ring i j).2 := by
  have stands : ∀ e ∈ ring.zipIdx.drop (i + 1) ++ ring.zipIdx.take i, ring[e.2]? = some e.1 := by
    intro e member
    refine List.mem_zipIdx_iff_getElem?.1 ?_
    rcases List.mem_append.1 member with later | earlier
    · exact List.mem_of_mem_drop later
    · exact List.mem_of_mem_take earlier
  have numbers : ring.zipIdx.map Prod.snd = List.range ring.length := by
    rw [List.zipIdx_map_snd, List.range_eq_range']
  have onwards : (ring.zipIdx.drop (i + 1) ++ ring.zipIdx.take i).map Prod.snd ++ [i]
      = (List.range ring.length).rotate (i + 1) := by
    rw [List.rotate_eq_drop_append_take (by simpa using hi), List.map_append, List.map_drop,
      List.map_take, numbers, List.take_add_one, List.append_assoc, List.getElem?_range hi]
    rfl
  have around : i :: (ring.zipIdx.drop (i + 1) ++ ring.zipIdx.take i).map Prod.snd
      = (List.range ring.length).rotate i := by
    have first : (List.range ring.length).drop i = i :: (List.range ring.length).drop (i + 1) := by
      rw [List.drop_eq_getElem_cons (by simpa using hi), List.getElem_range]
    rw [List.rotate_eq_drop_append_take (by simpa using hi.le), first, List.map_append,
      List.map_drop, List.map_take, numbers, List.cons_append]
  constructor
  · refine walk_takeWhile (i := i) stands ?_ ?_ ?_
    · rw [onwards]
      exact (isChain_rotate_range _ _).imp fun _ _ => And.right
    · rw [onwards]
      simpa using hj
    · rw [onwards, List.head?_eq_getElem?, getElem?_rotate_range (Nat.zero_lt_of_lt hi), zero_add]
  · refine walk_takeWhile (i := i) (fun e member => stands e (List.mem_reverse.1 member)) ?_ ?_ ?_
    · rw [List.map_reverse, ← List.reverse_cons, around, List.isChain_reverse]
      exact (isChain_rotate_range _ _).imp fun _ _ both => step_back both.1 both.2
    · rw [List.map_reverse, ← List.reverse_cons, around]
      simpa using hj
    · rw [List.map_reverse, ← List.reverse_cons, around, List.head?_reverse,
        List.getLast?_eq_getElem?, List.length_rotate, List.length_range,
        getElem?_rotate_range (by omega)]
      congr 2
      omega

end Hull

/-! ## Sides along a hull -/

namespace Scene

variable {α : Type} [Scalar α] {s : Scene α} {source receiver : Point α}

/-- The convex hull of the two ends and the outlines of the included buildings. -/
def hullAround (s : Scene α) (source receiver : Point α) (included : List Nat) : List (Point α) :=
  Hull.convex (source :: receiver :: s.outlineCorners included)

/-- The sides walk along a hull from the source to the receiver, the right one on and the
left one back. -/
def WalkedAlong (hull : List (Point α)) (source receiver : Point α) (sides : Sides α) : Prop :=
  ∃ i j ahead back,
    hull.findIdx? (·.samePlanar source) = some i ∧ hull.findIdx? (·.samePlanar receiver) = some j ∧
    Hull.Walk hull (fun k => (k + 1) % hull.length) j ((i + 1) % hull.length) ahead ∧
    Hull.Walk hull (fun k => (k + hull.length - 1) % hull.length) j
      ((i + hull.length - 1) % hull.length) back ∧
    sides = ⟨Polyline.graded (source :: back ++ [receiver]),
      Polyline.graded (source :: ahead ++ [receiver])⟩

theorem walkedAlong_of_sidesAround {included : List Nat} {sides : Sides α}
    (laid : s.sidesAround source receiver included = some sides) :
    WalkedAlong (s.hullAround source receiver included) source receiver sides := by
  unfold sidesAround at laid
  dsimp only at laid
  split at laid
  · rename_i i j isSource isReceiver
    obtain rfl := Option.some.inj laid
    obtain ⟨ahead, back⟩ := Hull.walk_ways (List.findIdx?_eq_some_iff_getElem.1 isSource).1
      (List.findIdx?_eq_some_iff_getElem.1 isReceiver).1
    exact ⟨i, j, _, _, isSource, isReceiver, ahead, back, rfl⟩
  · simp at laid

/-! ## Rounds -/

/-- One more round: what the sides run into joins the included buildings. -/
def Joins (s : Scene α) (source receiver : Point α) (included next : List Nat) : Prop :=
  ∃ sides, s.sidesAround source receiver included = some sides ∧ s.newlyMet sides included ≠ [] ∧
    next = included ++ s.newlyMet sides included

theorem mem_newlyMet {sides : Sides α} {included : List Nat} {b : Nat} :
    b ∈ s.newlyMet sides included ↔
      (∃ leg ∈ Sequence.adjacent sides.left ++ Sequence.adjacent sides.right,
        b ∈ s.obstructing leg.1 leg.2) ∧ b < s.buildings.size ∧ b ∉ included := by
  simp only [newlyMet, List.mem_filter, List.mem_flatMap, Bool.and_eq_true, decide_eq_true_eq,
    Bool.not_eq_true', List.contains_eq_mem, decide_eq_false_iff_not]

namespace Joins

variable {included next : List Nat}

theorem subset (joins : s.Joins source receiver included next) : included ⊆ next := by
  obtain ⟨sides, -, -, rfl⟩ := joins
  exact List.subset_append_left _ _

theorem unique {next' : List Nat} (joins : s.Joins source receiver included next)
    (joins' : s.Joins source receiver included next') : next = next' := by
  obtain ⟨sides, laid, -, rfl⟩ := joins
  obtain ⟨sides', laid', -, rfl⟩ := joins'
  obtain rfl := Option.some.inj (laid.symm.trans laid')
  rfl

theorem exists_new (joins : s.Joins source receiver included next) :
    ∃ b ∈ next, b ∉ included ∧ b < s.buildings.size := by
  obtain ⟨sides, -, met, rfl⟩ := joins
  obtain ⟨b, isMet⟩ := List.exists_mem_of_ne_nil _ met
  obtain ⟨-, isBuilding, new⟩ := mem_newlyMet.1 isMet
  exact ⟨b, List.mem_append_right _ isMet, new, isBuilding⟩

theorem notIncluded_lt (joins : s.Joins source receiver included next) :
    (notIncluded s.buildings.size next).length
      < (notIncluded s.buildings.size included).length := by
  obtain ⟨sides, -, met, rfl⟩ := joins
  obtain ⟨b, isMet⟩ := List.exists_mem_of_ne_nil _ met
  exact Scene.notIncluded_lt (mem_newlyMet.1 isMet).2 isMet

end Joins

/-- There are no more rounds than buildings that are not included at first. -/
theorem length_rounds_le {included : List Nat} {rounds : List (List Nat)}
    (chain : (included :: rounds).IsChain (s.Joins source receiver)) :
    rounds.length ≤ (notIncluded s.buildings.size included).length := by
  induction rounds generalizing included with
  | nil => exact Nat.zero_le _
  | cons next rounds ih =>
      obtain ⟨joins, chain⟩ := List.isChain_cons_cons.1 chain
      exact (ih chain).trans_lt joins.notIncluded_lt

/-- The rounds that start with some included buildings end with `last`. -/
structure Settles (s : Scene α) (source receiver : Point α) (included last : List Nat) : Prop where
  rounds : Relation.ReflTransGen (s.Joins source receiver) included last
  ends : ∀ next, ¬s.Joins source receiver last next

theorem Settles.subset {included last : List Nat}
    (settles : s.Settles source receiver included last) : included ⊆ last := by
  obtain ⟨rounds, -⟩ := settles
  induction rounds with
  | refl => exact List.Subset.refl _
  | tail _ joins ih => exact List.Subset.trans ih joins.subset

theorem newlyMet_of_settles {included last : List Nat} {sides : Sides α}
    (settles : s.Settles source receiver included last)
    (laid : s.sidesAround source receiver last = some sides) : s.newlyMet sides last = [] := by
  by_contra met
  exact settles.ends _ ⟨sides, laid, met, rfl⟩

/-- The sides that are returned are those of the last round. -/
theorem exists_settles (s : Scene α) (source receiver : Point α) (included : List Nat) :
    ∃ last, s.Settles source receiver included last ∧
      s.settledSides source receiver included = s.sidesAround source receiver last := by
  fun_induction settledSides s source receiver included with
  | case1 included none =>
      refine ⟨included, ⟨.refl, ?_⟩, none.symm⟩
      rintro next ⟨sides, laid, -⟩
      simp [none] at laid
  | case2 included sides laid met =>
      refine ⟨included, ⟨.refl, ?_⟩, laid.symm⟩
      rintro next ⟨sides', laid', met', -⟩
      obtain rfl := Option.some.inj (laid.symm.trans laid')
      exact met' met
  | case3 included sides laid b more met ih =>
      obtain ⟨last, settles, same⟩ := ih
      have joins : s.Joins source receiver included (included ++ b :: more) :=
        ⟨sides, laid, by simp [met], by rw [met]⟩
      exact ⟨last, ⟨.head joins settles.rounds, settles.ends⟩, same⟩

theorem lt_size_of_mem_obstructing {p q : Point α} {b : Nat} (blocks : b ∈ s.obstructing p q) :
    b < s.buildings.size := by
  have passes := (List.mem_filter.1 blocks).2
  split at passes
  · rename_i entry _
    exact (Array.getElem?_eq_some_iff.1 entry).1
  · simp at passes

/-- Each round strictly enlarges the included buildings, so there is at most one more of them
than there are buildings, and in each both sides walk along the hull to the receiver.  The
last round gives the sides that are returned, and every building in the way of one of
their legs is among those that they were laid around. -/
theorem sides_settle (α : Type) [Scalar α] (s : Scene α) (source receiver : Point α)
    (obstacles : List Nat) :
    (∀ included next, s.Joins source receiver included next →
      {b | b ∈ included} ⊂ {b | b ∈ next}) ∧
    (∀ rounds, (obstacles :: rounds).IsChain (s.Joins source receiver) →
      (obstacles :: rounds).length ≤ s.buildings.size + 1) ∧
    (∀ included sides, s.sidesAround source receiver included = some sides →
      WalkedAlong (s.hullAround source receiver included) source receiver sides) ∧
    ∃ last, s.Settles source receiver obstacles last ∧ obstacles ⊆ last ∧
      s.settledSides source receiver obstacles = s.sidesAround source receiver last ∧
      ∀ sides, s.sidesAround source receiver last = some sides →
        ∀ leg ∈ Sequence.adjacent sides.left ++ Sequence.adjacent sides.right,
          ∀ b ∈ s.obstructing leg.1 leg.2, b ∈ last := by
  refine ⟨?grow, ?few, fun included sides laid => walkedAlong_of_sidesAround laid, ?closed⟩
  case grow =>
    intro included next joins
    obtain ⟨b, member, new, -⟩ := joins.exists_new
    exact Set.ssubset_iff_exists.2 ⟨joins.subset, b, member, new⟩
  case few =>
    intro rounds chain
    have all : (notIncluded s.buildings.size obstacles).length ≤ s.buildings.size := by
      simpa [notIncluded] using
        List.length_filter_le (fun b => !obstacles.contains b) (List.range s.buildings.size)
    exact Nat.succ_le_succ ((length_rounds_le chain).trans all)
  case closed =>
    obtain ⟨last, settles, same⟩ := s.exists_settles source receiver obstacles
    refine ⟨last, settles, settles.subset, same, fun sides laid leg isLeg b blocks => ?_⟩
    by_contra new
    have isMet : b ∈ s.newlyMet sides last :=
      mem_newlyMet.2 ⟨⟨leg, isLeg, blocks⟩, lt_size_of_mem_obstructing blocks, new⟩
    simp [newlyMet_of_settles settles laid] at isMet

end Scene
end RoadNoise
