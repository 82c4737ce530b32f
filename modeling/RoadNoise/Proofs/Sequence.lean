/-
# RoadNoise.Proofs.Sequence -- lists after sorting and thinning

What the list functions of `RoadNoise.Sequence` keep.  Sorting permutes, thinning
drops entries and keeps the order, and the two together leave positions that are
told apart by the tolerance: in a thinned sorted list of numbers every entry lies at
least `eps` below all that follow it (`pairwise_gap_thin`).
-/
import RoadNoise.Proofs.Exact
import RoadNoise.Sequence

set_option autoImplicit false

namespace RoadNoise.Sequence

variable {β : Type}

/-! ## Thinning -/

theorem thinAfter_sublist (same : β → β → Bool) (last : β) (l : List β) :
    (thinAfter same last l).Sublist l := by
  induction l generalizing last with
  | nil => exact List.Sublist.refl _
  | cons b l ih =>
      simp only [thinAfter]
      split
      · exact (ih last).cons b
      · exact (ih b).cons_cons b

theorem thin_sublist (same : β → β → Bool) : ∀ l : List β, (thin same l).Sublist l
  | [] => List.Sublist.refl _
  | b :: l => (thinAfter_sublist same b l).cons_cons b

theorem mem_of_mem_thin {same : β → β → Bool} {l : List β} {b : β} (kept : b ∈ thin same l) :
    b ∈ l :=
  (thin_sublist same l).subset kept

/-- Every entry is kept or the same as one that was kept before it. -/
theorem exists_same_of_mem_thinAfter (same : β → β → Bool) (refl : ∀ b, same b b = true)
    {l : List β} {b : β} (last : β) (entry : b ∈ l) :
    ∃ k ∈ last :: thinAfter same last l, same b k = true := by
  induction l generalizing last with
  | nil => simp at entry
  | cons c l ih =>
      simp only [thinAfter]
      split
      · rename_i dropped
        rcases List.mem_cons.1 entry with rfl | later
        · exact ⟨last, List.mem_cons_self, dropped⟩
        · exact ih last later
      · rcases List.mem_cons.1 entry with rfl | later
        · exact ⟨b, by simp, refl b⟩
        · obtain ⟨k, kept, isSame⟩ := ih c later
          exact ⟨k, List.mem_cons_of_mem _ kept, isSame⟩

theorem exists_same_of_mem (same : β → β → Bool) (refl : ∀ b, same b b = true)
    {l : List β} {b : β} (entry : b ∈ l) : ∃ k ∈ thin same l, same b k = true := by
  cases l with
  | nil => simp at entry
  | cons c l =>
      rcases List.mem_cons.1 entry with rfl | later
      · exact ⟨b, by simp [thin], refl b⟩
      · exact exists_same_of_mem_thinAfter same refl c later

/-! ## Sorting -/

section Sorting

variable {order : β → β → Ordering}

theorem sortOn_perm (order : β → β → Ordering) (l : List β) : (sortOn order l).Perm l :=
  List.mergeSort_perm _ _

@[simp] theorem mem_sortOn {l : List β} {b : β} : b ∈ sortOn order l ↔ b ∈ l :=
  (sortOn_perm order l).mem_iff

/-- Entries that compare as what they are made of are sorted as that is. -/
theorem sortOn_map {γ : Type} {order : β → β → Ordering} {order' : γ → γ → Ordering} {f : β → γ}
    (alike : ∀ a b, order a b = order' (f a) (f b)) (l : List β) :
    sortOn order' (l.map f) = (sortOn order l).map f :=
  (List.map_mergeSort fun a _ b _ => congrArg Ordering.isLE (alike a b)).symm

theorem pairwise_sortOn (order : β → β → Ordering)
    (trans : ∀ a b c, (order a b).isLE → (order b c).isLE → (order a c).isLE)
    (total : ∀ a b, (order a b).isLE ∨ (order b a).isLE) (l : List β) :
    (sortOn order l).Pairwise fun a b => (order a b).isLE :=
  List.pairwise_mergeSort trans (fun a b => by simpa using total a b) l

/-- Entries are in the order of the keys that they are compared by. -/
theorem pairwise_sortOn_of_key {κ : Type} [LinearOrder κ] (key : β → κ)
    (alike : ∀ a b, (order a b).isLE = true ↔ key a ≤ key b) (l : List β) :
    (sortOn order l).Pairwise fun a b => key a ≤ key b := by
  have sorted := pairwise_sortOn order (fun a b c => by simpa only [alike] using le_trans)
    (fun a b => by simpa only [alike] using le_total (key a) (key b)) l
  simpa only [alike] using sorted

/-- Entries sorted by a number that each of them has. -/
theorem pairwise_sortOn_key (key : β → ℝ) (l : List β) :
    (sortOn (fun a b => Scalar.order (key a) (key b)) l).Pairwise fun a b => key a ≤ key b :=
  pairwise_sortOn_of_key key (fun a b => Scalar.order_isLE_iff (key a) (key b)) l

theorem pairwise_sortOn_order (l : List ℝ) : (sortOn Scalar.order l).Pairwise (· ≤ ·) :=
  pairwise_sortOn_key id l

/-- Two numbers compared first and two more where they tie. -/
theorem isLE_then_iff (x y u v : ℝ) :
    ((Scalar.order x y).then (Scalar.order u v)).isLE = true ↔ x < y ∨ x = y ∧ u ≤ v := by
  rcases lt_trichotomy x y with below | rfl | above
  · have order : Scalar.order x y = .lt := (cmp_eq_lt_iff _ _).2 below
    simp [order, below]
  · have order : Scalar.order x x = .eq := (cmp_eq_eq_iff _ _).2 rfl
    simp [order]
  · have order : Scalar.order x y = .gt := (cmp_eq_gt_iff _ _).2 above
    simp [order, above.ne', above.not_gt]

/-- Numbers have one order. -/
theorem sortOn_order_eq {l m : List ℝ} (perm : l.Perm m) (sorted : m.Pairwise (· ≤ ·)) :
    sortOn Scalar.order l = m :=
  ((sortOn_perm Scalar.order l).trans perm).eq_of_pairwise
    (fun _ _ _ _ below above => le_antisymm below above) (pairwise_sortOn_order l) sorted

/-- Entries whose numbers all differ have one order. -/
theorem eq_of_pairwise_key (key : β → ℝ) {l m : List β} (perm : l.Perm m)
    (ordered : l.Pairwise fun a b => key a ≤ key b)
    (sorted : m.Pairwise fun a b => key a < key b) : l = m := by
  have nodup : (m.map key).Nodup := List.pairwise_map.2 (sorted.imp fun below => below.ne)
  refine perm.eq_of_pairwise ?_ ordered (sorted.imp le_of_lt)
  intro a b first second below above
  exact List.inj_on_of_nodup_map nodup (perm.mem_iff.1 first) second (le_antisymm below above)

theorem sortOn_key_eq (key : β → ℝ) {l m : List β} (perm : l.Perm m)
    (sorted : m.Pairwise fun a b => key a < key b) :
    sortOn (fun a b => Scalar.order (key a) (key b)) l = m :=
  eq_of_pairwise_key key ((sortOn_perm _ l).trans perm) (pairwise_sortOn_key key l) sorted

/-- The least entry comes first. -/
theorem exists_cons_of_least {key : β → ℝ} {m l : List β} {a : β}
    (sorted : m.Pairwise fun b c => key b ≤ key c) (perm : m.Perm (a :: l))
    (least : ∀ b ∈ l, key a < key b) : ∃ t, m = a :: t ∧ t.Perm l := by
  cases m with
  | nil => simpa using perm.length_eq
  | cons b t =>
      have first : b = a := by
        by_contra other
        have later : a ∈ t := by
          rcases List.mem_cons.1 (perm.mem_iff.2 List.mem_cons_self) with same | later
          · exact absurd same.symm other
          · exact later
        have entry : b ∈ l := by
          rcases List.mem_cons.1 (perm.mem_iff.1 List.mem_cons_self) with same | entry
          · exact absurd same other
          · exact entry
        exact absurd (least b entry) (not_lt.2 ((List.pairwise_cons.1 sorted).1 a later))
      subst first
      exact ⟨t, rfl, (List.perm_cons b).1 perm⟩

/-- The greatest entry comes last. -/
theorem exists_concat_of_greatest {key : β → ℝ} {m l : List β} {z : β}
    (sorted : m.Pairwise fun b c => key b ≤ key c) (perm : m.Perm (l ++ [z]))
    (greatest : ∀ b ∈ l, key b < key z) : ∃ t, m = t ++ [z] ∧ t.Perm l := by
  rcases List.eq_nil_or_concat m with rfl | ⟨t, b, rfl⟩
  · simpa using perm.length_eq
  · rw [List.concat_eq_append] at *
    have last : b = z := by
      by_contra other
      have earlier : z ∈ t := by
        have entry : z ∈ t ++ [b] := perm.mem_iff.2 (by simp)
        simpa [Ne.symm other] using entry
      have entry : b ∈ l := by
        have entry : b ∈ l ++ [z] := perm.mem_iff.1 (by simp)
        simpa [other] using entry
      exact absurd (greatest b entry) (not_lt.2 ((List.pairwise_append.1 sorted).2.2 z earlier b
        (by simp)))
    subst last
    exact ⟨t, rfl, (List.perm_append_right_iff [b]).1 perm⟩

end Sorting

/-! ## Positions told apart -/

theorem pairwise_gap_thinAfter {last : ℝ} {l : List ℝ} (sorted : (last :: l).Pairwise (· ≤ ·)) :
    (last :: thinAfter Scalar.near last l).Pairwise fun a b => a + Scalar.eps ≤ b := by
  induction l generalizing last with
  | nil => simp [thinAfter]
  | cons b l ih =>
      obtain ⟨least, rest⟩ := List.pairwise_cons.1 sorted
      have below : last ≤ b := least b List.mem_cons_self
      simp only [thinAfter]
      split
      · apply ih
        exact List.pairwise_cons.2
          ⟨fun c later => least c (List.mem_cons_of_mem _ later), (List.pairwise_cons.1 rest).2⟩
      · rename_i apart
        rw [Bool.not_eq_true, Scalar.near_eq_false_iff, abs_of_nonneg (sub_nonneg.2 below)]
          at apart
        have gaps := ih rest
        refine List.pairwise_cons.2 ⟨?_, gaps⟩
        intro c kept
        rcases List.mem_cons.1 kept with rfl | later
        · linarith
        · have next := (List.pairwise_cons.1 gaps).1 c later
          have := Scalar.eps_pos
          linarith

theorem pairwise_gap_thin {l : List ℝ} (sorted : l.Pairwise (· ≤ ·)) :
    (thin Scalar.near l).Pairwise fun a b => a + Scalar.eps ≤ b := by
  cases l with
  | nil => simp [thin]
  | cons b l => exact pairwise_gap_thinAfter sorted

section Keys

variable {κ : Type} [LinearOrder κ] {key : β → κ} {same : β → β → Bool}

theorem pairwise_lt_thinAfter {last : β} {l : List β}
    (alike : ∀ a ∈ last :: l, ∀ b ∈ last :: l, same b a = true ↔ key b = key a)
    (sorted : (last :: l).Pairwise fun a b => key a ≤ key b) :
    (last :: thinAfter same last l).Pairwise fun a b => key a < key b := by
  induction l generalizing last with
  | nil => simp [thinAfter]
  | cons b l ih =>
      obtain ⟨least, rest⟩ := List.pairwise_cons.1 sorted
      have told := alike last (by simp) b (by simp)
      simp only [thinAfter]
      split
      · have fewer := (List.sublist_cons_self b l).cons_cons last
        exact ih (fun c member d other => alike c (fewer.subset member) d (fewer.subset other))
          (sorted.sublist fewer)
      · rename_i apart
        have gaps := ih (fun c member d other => alike c (List.mem_cons_of_mem _ member) d
          (List.mem_cons_of_mem _ other)) rest
        have next : key last < key b :=
          lt_of_le_of_ne (least b List.mem_cons_self) fun level => apart (told.2 level.symm)
        refine List.pairwise_cons.2 ⟨fun c kept => ?_, gaps⟩
        rcases List.mem_cons.1 kept with rfl | later
        · exact next
        · exact next.trans ((List.pairwise_cons.1 gaps).1 c later)

/-- In a sorted list that is freed of entries with the same key each key occurs once. -/
theorem pairwise_lt_thin (key : β → κ) {l : List β}
    (alike : ∀ a ∈ l, ∀ b ∈ l, same b a = true ↔ key b = key a)
    (sorted : l.Pairwise fun a b => key a ≤ key b) :
    (thin same l).Pairwise fun a b => key a < key b := by
  cases l with
  | nil => exact .nil
  | cons b l => exact pairwise_lt_thinAfter alike sorted

end Keys

/-! ## Neighbours -/

theorem mem_of_mem_adjacent {l : List β} {a b : β} (pair : (a, b) ∈ adjacent l) :
    a ∈ l ∧ b ∈ l :=
  ⟨(List.of_mem_zip pair).1, List.mem_of_mem_tail (List.of_mem_zip pair).2⟩

theorem adjacent_cons_cons (a b : β) (l : List β) :
    adjacent (a :: b :: l) = (a, b) :: adjacent (b :: l) := rfl

theorem adjacent_map {γ : Type} (f : β → γ) (l : List β) :
    adjacent (l.map f) = (adjacent l).map fun e => (f e.1, f e.2) := by
  rw [adjacent, adjacent, ← List.map_tail, List.zip_map]
  rfl

theorem adjacent_append (front : List β) (a : β) (back : List β) :
    adjacent (front ++ a :: back) = adjacent (front ++ [a]) ++ adjacent (a :: back) := by
  induction front with
  | nil => rfl
  | cons c front ih =>
      cases front with
      | nil => rfl
      | cons d front =>
          simp only [List.cons_append, adjacent_cons_cons] at ih ⊢
          rw [ih]

theorem adjacent_concat (front : List β) (a b : β) :
    adjacent (front ++ [a, b]) = adjacent (front ++ [a]) ++ [(a, b)] :=
  adjacent_append front a [b]

theorem cyclic_cons (a : β) (l : List β) : cyclic (a :: l) = adjacent (a :: l ++ [a]) := by
  have whole : (a :: l ++ [a]).zip (l ++ [a] ++ []) = (a :: l).zip (l ++ [a]) ++ [a].zip [] :=
    List.zip_append (by simp)
  rw [List.append_nil, List.zip_nil_right, List.append_nil] at whole
  exact whole.symm

/-- A ring is the way from one entry to another and the way back. -/
theorem cyclic_cons_append_cons (a b : β) (there back : List β) :
    cyclic (a :: there ++ b :: back)
      = adjacent (a :: there ++ [b]) ++ adjacent (b :: back ++ [a]) := by
  have split := adjacent_append (a :: there) b (back ++ [a])
  rw [List.cons_append, cyclic_cons]
  simpa using split

/-- A ring is the way from its first entry to its last and the way back. -/
theorem cyclic_concat (a z : β) (way : List β) :
    cyclic (a :: way ++ [z]) = adjacent (a :: way ++ [z]) ++ [(z, a)] :=
  cyclic_cons_append_cons a z way []

/-- It does not matter where a ring begins. -/
theorem cyclic_append_comm (front back : List β) :
    (cyclic (front ++ back)).Perm (cyclic (back ++ front)) := by
  cases front with
  | nil => simp
  | cons a front =>
      cases back with
      | nil => simp
      | cons b back =>
          rw [cyclic_cons_append_cons, cyclic_cons_append_cons]
          exact List.perm_append_comm

theorem mem_cyclic_append_comm {front back : List β} {e : β × β} :
    e ∈ cyclic (front ++ back) ↔ e ∈ cyclic (back ++ front) :=
  (cyclic_append_comm front back).mem_iff

theorem perm_cyclic_of_isRotated {ring turned : List β} (rotated : ring.IsRotated turned) :
    (cyclic ring).Perm (cyclic turned) := by
  obtain ⟨n, rfl⟩ := rotated
  have cut := cyclic_append_comm (ring.take (n % ring.length)) (ring.drop (n % ring.length))
  rwa [List.take_append_drop, ← List.rotate_eq_drop_append_take_mod] at cut

theorem mem_of_mem_cyclic {ring : List β} {a b : β} (edge : (a, b) ∈ cyclic ring) :
    a ∈ ring ∧ b ∈ ring := by
  cases ring with
  | nil => simp [cyclic] at edge
  | cons c l =>
      obtain ⟨first, second⟩ := List.of_mem_zip edge
      refine ⟨first, ?_⟩
      simpa [or_comm] using second

theorem mem_adjacent_iff {l : List β} {a b : β} :
    (a, b) ∈ adjacent l ↔ ∃ front back, l = front ++ a :: b :: back := by
  constructor
  · intro pair
    induction l with
    | nil => simp [adjacent] at pair
    | cons c l ih =>
        cases l with
        | nil => simp [adjacent] at pair
        | cons d l =>
            rw [adjacent_cons_cons, List.mem_cons] at pair
            rcases pair with first | later
            · obtain ⟨rfl, rfl⟩ := Prod.mk.inj first
              exact ⟨[], l, rfl⟩
            · obtain ⟨front, back, split⟩ := ih later
              exact ⟨c :: front, back, by rw [split, List.cons_append]⟩
  · rintro ⟨front, back, rfl⟩
    rw [adjacent_append, adjacent_cons_cons]
    simp

theorem mem_adjacent_reverse {l : List β} {a b : β} :
    (a, b) ∈ adjacent l.reverse ↔ (b, a) ∈ adjacent l := by
  have turned : ∀ {l : List β} {a b : β}, (a, b) ∈ adjacent l → (b, a) ∈ adjacent l.reverse := by
    intro l a b pair
    obtain ⟨front, back, rfl⟩ := mem_adjacent_iff.1 pair
    exact mem_adjacent_iff.2 ⟨back.reverse, front.reverse, by simp⟩
  exact ⟨fun pair => by simpa using turned pair, turned⟩

theorem mem_adjacent_of_getElem? {l : List β} {a b : β} {k : Nat} (first : l[k]? = some a)
    (second : l[k + 1]? = some b) : (a, b) ∈ adjacent l :=
  List.mem_of_getElem? (i := k) (List.getElem?_zip_eq_some.2 ⟨first, by rwa [List.getElem?_tail]⟩)

theorem pairwise_of_mem_adjacent {R : β → β → Prop} :
    ∀ {l : List β}, l.Pairwise R → ∀ {a b : β}, (a, b) ∈ adjacent l → R a b
  | [], _, a, b, pair => by simp [adjacent] at pair
  | [_], _, a, b, pair => by simp [adjacent] at pair
  | c :: d :: l, related, a, b, pair => by
      rw [adjacent_cons_cons, List.mem_cons] at pair
      rcases pair with first | later
      · obtain ⟨rfl, rfl⟩ := Prod.mk.inj first
        exact (List.pairwise_cons.1 related).1 b (by simp)
      · exact pairwise_of_mem_adjacent (List.pairwise_cons.1 related).2 later

/-! ## Repeated neighbours -/

section Thinned

variable {same : β → β → Bool}

/-- No entry of a thinned list repeats the one before it. -/
theorem apart_thinAfter {last : β} {l : List β} {a b : β}
    (pair : (a, b) ∈ adjacent (last :: thinAfter same last l)) : same b a = false := by
  induction l generalizing last with
  | nil => simp [thinAfter, adjacent] at pair
  | cons c l ih =>
      rw [thinAfter] at pair
      split_ifs at pair with repeated
      · exact ih pair
      · rw [adjacent_cons_cons, List.mem_cons] at pair
        rcases pair with first | later
        · obtain ⟨rfl, rfl⟩ := Prod.mk.inj first
          exact Bool.eq_false_of_not_eq_true repeated
        · exact ih later

theorem apart_thin {l : List β} {a b : β} (pair : (a, b) ∈ adjacent (thin same l)) :
    same b a = false := by
  cases l with
  | nil => simp [thin, adjacent] at pair
  | cons c l => exact apart_thinAfter pair

theorem thinAfter_of_apart {last : β} {l : List β}
    (apart : ∀ a b, (a, b) ∈ adjacent (last :: l) → same b a = false) :
    thinAfter same last l = l := by
  induction l generalizing last with
  | nil => rfl
  | cons c l ih =>
      have first : same c last = false := apart last c (by simp [adjacent_cons_cons])
      have later : thinAfter same c l = l :=
        ih fun a b pair => apart a b (List.mem_cons_of_mem (last, c) pair)
      rw [thinAfter, first, later]
      rfl

/-- A list is thin when no entry repeats the one before it. -/
theorem thin_of_apart {l : List β} (apart : ∀ a b, (a, b) ∈ adjacent l → same b a = false) :
    thin same l = l := by
  cases l with
  | nil => rfl
  | cons c l => rw [thin, thinAfter_of_apart apart]

/-- A list without two entries that are the same is left alone. -/
theorem thin_eq_self {l : List β} (apart : l.Pairwise fun a b => same b a = false) :
    thin same l = l :=
  thin_of_apart fun _ _ => pairwise_of_mem_adjacent apart

end Thinned

/-! ## Images -/

/-- Entries of a list that a function tells apart are known by what it makes of them. -/
theorem eq_of_map_eq {γ : Type} {f : β → γ} {l m : List β} (sub : ∀ b ∈ l, b ∈ m)
    (apart : (m.map f).Nodup) (same : l.map f = m.map f) : l = m := by
  refine List.ext_getElem (by simpa using congrArg List.length same) fun i first second => ?_
  have image : f l[i] = f m[i] := by
    simpa [first, second] using congrArg (·[i]?) same
  exact List.inj_on_of_nodup_map apart (sub _ (List.getElem_mem first)) (List.getElem_mem second)
    image

/-! ## Item numbers -/

@[simp] theorem mem_between {lo hi k : Int} : k ∈ between lo hi ↔ lo ≤ k ∧ k ≤ hi := by
  simp only [between, List.mem_map, List.mem_range]
  constructor
  · rintro ⟨n, inRange, rfl⟩
    constructor
    · simp
    · have : (n : Int) < hi + 1 - lo := by omega
      simp only [Int.ofNat_eq_natCast]
      omega
  · rintro ⟨above, below⟩
    refine ⟨(k - lo).toNat, by omega, ?_⟩
    simp only [Int.ofNat_eq_natCast]
    omega

@[simp] theorem mem_ascending {l : List Nat} {n : Nat} : n ∈ ascending l ↔ n ∈ l := by
  constructor
  · intro kept
    simpa using mem_of_mem_thin kept
  · intro entry
    obtain ⟨k, kept, isSame⟩ := exists_same_of_mem (· == ·) (fun b => by simp)
      (l := l.mergeSort fun a b => a ≤ b) (b := n) (by simpa using entry)
    obtain rfl : n = k := by simpa using isSame
    exact kept

theorem pairwise_ascending (l : List Nat) : (ascending l).Pairwise (· < ·) := by
  have sorted : (l.mergeSort fun a b => a ≤ b).Pairwise (· ≤ ·) := by
    have ordered : (l.mergeSort fun a b => a ≤ b).Pairwise fun a b => decide (a ≤ b) = true :=
      List.pairwise_mergeSort (fun a b c => by simpa using le_trans)
        (fun a b => by simpa using le_total a b) l
    simpa using ordered
  exact pairwise_lt_thin id (fun a _ b _ => by simp) sorted

/-- An ascending list of numbers is known by its members. -/
theorem eq_of_pairwise_lt {l m : List Nat} (hl : l.Pairwise (· < ·)) (hm : m.Pairwise (· < ·))
    (members : ∀ n, n ∈ l ↔ n ∈ m) : l = m := by
  have nodup : ∀ {k : List Nat}, k.Pairwise (· < ·) → k.Nodup := fun h => h.imp Nat.ne_of_lt
  have permuted : l.Perm m := (List.perm_ext_iff_of_nodup (nodup hl) (nodup hm)).2 members
  exact permuted.eq_of_pairwise (fun a b _ _ below above => absurd below (Nat.lt_asymm above)) hl hm

end RoadNoise.Sequence
