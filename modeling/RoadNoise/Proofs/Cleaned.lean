/-
# RoadNoise.Proofs.Cleaned -- what drawing leaves of the rings

Drawing an outline frees each ring of repeated neighbours and of a last vertex that repeats
the first, and it refuses rings with fewer than three vertices left
(`Polygon.ofRings_eq_ok_iff`).  Sharing a position is not transitive, so the vertex before
the one that was taken off may share the position of the first as well, and nobody looks
again (`knot_left`).  All the rest of what is wanted of an outline always holds, and this
too exactly when no ring comes back to its first vertex twice in a row; then drawing the
outline once more changes nothing (`Polygon.drawn_rings`).
-/
import RoadNoise.Plane.Polygon
import RoadNoise.Proofs.Numbers
import RoadNoise.Proofs.Sequence

set_option autoImplicit false

namespace RoadNoise

deriving instance DecidableEq for Point, Box

/-! ## Rings -/

namespace Ring

variable {α : Type} [Scalar α]

/-- What cleaning leaves of a ring. -/
def cleaned (ring : List (Point α)) : List (Point α) :=
  opened (Sequence.thin Point.samePlanar ring)

/-- No two neighbours share a position, all the way around. -/
def Apart (ring : List (Point α)) : Prop :=
  ∀ a b, (a, b) ∈ Sequence.cyclic ring → b.samePlanar a = false

/-- When repeated neighbours are gone, the ring does not come back to its first vertex twice
in a row. -/
def ReturnsOnce (ring : List (Point α)) : Prop :=
  ∀ a between v w, Sequence.thin Point.samePlanar ring = a :: between ++ [v, w] →
    a.samePlanar w = true → a.samePlanar v = false

variable {ring kept : List (Point α)} {what : String}

theorem clean_eq_ok_iff : clean what ring = .ok kept ↔
    (∀ v ∈ ring, v.isFinite = true) ∧ kept = cleaned ring ∧ 3 ≤ kept.length := by
  unfold clean
  simp only [check_bind_eq_ok_iff, require_eq_ok_iff, List.all_eq_true, decide_eq_true_eq, pure,
    Except.pure, Except.ok.injEq]
  constructor
  · rintro ⟨finite, several, rfl⟩
    exact ⟨finite, rfl, several⟩
  · rintro ⟨finite, rfl, several⟩
    exact ⟨finite, several, rfl⟩

theorem opened_concat (a : Point α) (between : List (Point α)) (w : Point α) :
    opened (a :: between ++ [w])
      = if a.samePlanar w then a :: between else a :: between ++ [w] := by
  have first : (a :: between ++ [w]).head? = some a := rfl
  have last : (a :: between ++ [w]).getLast? = some w := List.getLast?_concat
  have front : (a :: between ++ [w]).dropLast = a :: between := List.dropLast_concat
  have long : 1 < (a :: between ++ [w]).length := by simp
  simp only [opened, first, last, front, long, decide_true, Bool.true_and]

/-- A ring is the way from its first vertex to its last and the edge back. -/
theorem apart_concat_iff {a w : Point α} {between : List (Point α)} :
    Apart (a :: between ++ [w]) ↔
      (∀ u v, (u, v) ∈ Sequence.adjacent (a :: between ++ [w]) → v.samePlanar u = false) ∧
        a.samePlanar w = false := by
  simp only [Apart, Sequence.cyclic_concat, List.mem_append, List.mem_singleton, Prod.mk.injEq]
  constructor
  · intro apart
    exact ⟨fun u v pair => apart u v (.inl pair), apart w a (.inr ⟨rfl, rfl⟩)⟩
  · rintro ⟨apart, closing⟩ u v (pair | ⟨rfl, rfl⟩)
    · exact apart u v pair
    · exact closing

theorem opened_sublist (ring : List (Point α)) : (opened ring).Sublist ring := by
  unfold opened
  split
  · split_ifs
    · exact List.dropLast_sublist _
    · exact .refl _
  · exact .refl _

theorem cleaned_sublist (ring : List (Point α)) : (cleaned ring).Sublist ring :=
  (opened_sublist _).trans (Sequence.thin_sublist Point.samePlanar ring)

/-- Of a ring that is left, only the last vertex may have been taken off in the end. -/
theorem exists_cleaned_eq (several : 3 ≤ (cleaned ring).length) : ∃ a between v w,
    Sequence.thin Point.samePlanar ring = a :: between ++ [v, w] ∧
      cleaned ring = if a.samePlanar w then a :: between ++ [v] else a :: between ++ [v, w] := by
  unfold cleaned at several ⊢
  generalize Sequence.thin Point.samePlanar ring = thinned at several ⊢
  have long : 3 ≤ thinned.length := several.trans (opened_sublist thinned).length_le
  obtain ⟨a, rest, rfl⟩ := List.exists_cons_of_length_pos (by omega : 0 < thinned.length)
  obtain ⟨front, w, rfl⟩ := List.eq_nil_or_concat rest |>.resolve_left (by rintro rfl; simp at long)
  obtain ⟨between, v, rfl⟩ :=
    List.eq_nil_or_concat front |>.resolve_left (by rintro rfl; simp at long)
  refine ⟨a, between, v, w, by simp, ?_⟩
  simpa using opened_concat a (between ++ [v]) w

/-- Along a ring that is left no vertex repeats the one before it. -/
theorem apart_of_mem_adjacent (several : 3 ≤ (cleaned ring).length) {u v : Point α}
    (pair : (u, v) ∈ Sequence.adjacent (cleaned ring)) : v.samePlanar u = false := by
  obtain ⟨a, between, x, w, thinned, left⟩ := exists_cleaned_eq several
  have apart : ∀ u v, (u, v) ∈ Sequence.adjacent (a :: between ++ [x, w]) →
      v.samePlanar u = false := by
    rw [← thinned]
    exact fun u v => Sequence.apart_thin
  refine apart u v ?_
  rw [left] at pair
  split_ifs at pair
  · rw [Sequence.adjacent_concat]
    exact List.mem_append_left _ pair
  · exact pair

/-- Around a ring that is left neighbours are apart exactly when the ring it was made from
comes back once. -/
theorem apart_cleaned_iff (several : 3 ≤ (cleaned ring).length) :
    Apart (cleaned ring) ↔ ReturnsOnce ring := by
  have along : ∀ u v, (u, v) ∈ Sequence.adjacent (cleaned ring) → v.samePlanar u = false :=
    fun u v => apart_of_mem_adjacent several
  obtain ⟨a, between, v, w, thinned, left⟩ := exists_cleaned_eq several
  have returns : ReturnsOnce ring ↔ (a.samePlanar w = true → a.samePlanar v = false) := by
    constructor
    · intro once
      exact once a between v w thinned
    · intro once a' between' v' w' split
      rw [thinned] at split
      obtain ⟨rfl, split⟩ := List.cons.inj split
      obtain ⟨-, last⟩ := List.append_inj' split rfl
      obtain ⟨rfl, rfl⟩ : v = v' ∧ w = w' := by simpa using last
      exact once
  rw [returns]
  rw [left] at along ⊢
  split_ifs at along ⊢ with closing
  · rw [apart_concat_iff, and_iff_right along]
    simp [closing]
  · have whole : a :: between ++ [v, w] = a :: (between ++ [v]) ++ [w] := by simp
    rw [whole] at along ⊢
    rw [apart_concat_iff, and_iff_right along]
    simp [closing]

/-- Cleaning leaves a ring alone exactly when neighbours are apart all the way around. -/
theorem cleaned_eq_self_iff {a w : Point α} {between : List (Point α)}
    (apart : ∀ u v, (u, v) ∈ Sequence.adjacent (a :: between ++ [w]) → v.samePlanar u = false) :
    cleaned (a :: between ++ [w]) = a :: between ++ [w] ↔ Apart (a :: between ++ [w]) := by
  rw [cleaned, Sequence.thin_of_apart apart, opened_concat, apart_concat_iff,
    and_iff_right apart]
  split_ifs with closing
  · simp [closing]
  · simp [closing]

theorem cleaned_cleaned_iff (several : 3 ≤ (cleaned ring).length) :
    cleaned (cleaned ring) = cleaned ring ↔ Apart (cleaned ring) := by
  have along : ∀ u v, (u, v) ∈ Sequence.adjacent (cleaned ring) → v.samePlanar u = false :=
    fun u v => apart_of_mem_adjacent several
  obtain ⟨a, between, v, w, -, left⟩ := exists_cleaned_eq several
  rw [left] at along ⊢
  split_ifs at along ⊢
  · exact cleaned_eq_self_iff along
  · have whole : a :: between ++ [v, w] = a :: (between ++ [v]) ++ [w] := by simp
    rw [whole] at along ⊢
    exact cleaned_eq_self_iff along

end Ring

/-! ## Outlines -/

namespace Polygon

variable {α : Type} [Scalar α] {outer : List (Point α)} {holes kept : List (List (Point α))}
  {polygon : Polygon α}

theorem cleanHoles_eq_ok_iff {i : Nat} : cleanHoles i holes = .ok kept ↔
    (∀ hole ∈ holes, (∀ v ∈ hole, v.isFinite = true) ∧ 3 ≤ (Ring.cleaned hole).length) ∧
      kept = holes.map Ring.cleaned := by
  induction holes generalizing i kept with
  | nil =>
      constructor
      · intro made
        exact ⟨by simp, (Except.ok.inj made).symm⟩
      · rintro ⟨-, rfl⟩
        rfl
  | cons hole rest ih =>
      rw [List.forall_mem_cons, List.map_cons]
      constructor
      · intro made
        obtain ⟨first, clean, made⟩ := bind_eq_ok_iff.1 made
        obtain ⟨others, cleanRest, made⟩ := bind_eq_ok_iff.1 made
        obtain ⟨finite, rfl, several⟩ := Ring.clean_eq_ok_iff.1 clean
        obtain ⟨later, rfl⟩ := ih.1 cleanRest
        exact ⟨⟨⟨finite, several⟩, later⟩, (Except.ok.inj made).symm⟩
      · rintro ⟨⟨⟨finite, several⟩, later⟩, rfl⟩
        exact bind_eq_ok_iff.2 ⟨_, Ring.clean_eq_ok_iff.2 ⟨finite, rfl, several⟩,
          bind_eq_ok_iff.2 ⟨_, ih.2 ⟨later, rfl⟩, rfl⟩⟩

/-- What is drawn, and when. -/
theorem ofRings_eq_ok_iff : ofRings outer holes = .ok polygon ↔
    Ring.clean "outer ring" outer = .ok polygon.outer ∧
      cleanHoles 0 holes = .ok polygon.holes ∧
      ¬Scalar.abs (Ring.area polygon.outer) < Scalar.eps ∧
      Box.around? polygon.outer = some polygon.box := by
  constructor
  · intro made
    obtain ⟨ring, first, made⟩ := bind_eq_ok_iff.1 made
    obtain ⟨rest, later, made⟩ := bind_eq_ok_iff.1 made
    obtain ⟨area, made⟩ := check_bind_eq_ok_iff.1 made
    rw [require_eq_ok_iff] at area
    cases boxed : Box.around? ring with
    | none => simp [boxed, throw, throwThe, MonadExceptOf.throw] at made
    | some box =>
        simp only [boxed, pure, Except.pure, Except.ok.injEq] at made
        subst made
        exact ⟨first, later, by simpa using area, boxed⟩
  · rintro ⟨first, later, area, boxed⟩
    refine bind_eq_ok_iff.2 ⟨_, first, bind_eq_ok_iff.2 ⟨_, later, check_bind_eq_ok_iff.2 ⟨?_, ?_⟩⟩⟩
    · simpa [require_eq_ok_iff] using area
    · rw [boxed]
      rfl

/-- Every ring of an outline is what cleaning leaves of the ring it was made from. -/
theorem rings_of_ofRings (made : ofRings outer holes = .ok polygon) :
    polygon.rings = (outer :: holes).map Ring.cleaned ∧ ∀ ring ∈ outer :: holes,
      (∀ v ∈ ring, v.isFinite = true) ∧ 3 ≤ (Ring.cleaned ring).length := by
  obtain ⟨first, later, -⟩ := ofRings_eq_ok_iff.1 made
  obtain ⟨finite, whole, several⟩ := Ring.clean_eq_ok_iff.1 first
  obtain ⟨rest, holes⟩ := cleanHoles_eq_ok_iff.1 later
  rw [whole] at several
  refine ⟨?_, List.forall_mem_cons.2 ⟨⟨finite, several⟩, rest⟩⟩
  rw [rings, whole, holes, List.map_cons]

/-- Drawing an outline once more changes nothing exactly when neighbours are apart all the way
around every ring. -/
theorem redrawn_iff (made : ofRings outer holes = .ok polygon) :
    ofRings polygon.outer polygon.holes = .ok polygon ↔
      ∀ ring ∈ polygon.rings, Ring.Apart ring := by
  obtain ⟨ringsEq, left⟩ := rings_of_ofRings made
  obtain ⟨-, -, area, boxed⟩ := ofRings_eq_ok_iff.1 made
  have settled : ∀ ring ∈ polygon.rings, ((∀ v ∈ ring, v.isFinite = true) ∧ 3 ≤ ring.length) ∧
      (Ring.cleaned ring = ring ↔ Ring.Apart ring) := by
    rw [ringsEq, List.forall_mem_map]
    intro ring member
    obtain ⟨finite, several⟩ := left ring member
    exact ⟨⟨fun v vertex => finite v ((Ring.cleaned_sublist ring).subset vertex), several⟩,
      Ring.cleaned_cleaned_iff several⟩
  have same : (∀ ring ∈ polygon.rings, Ring.Apart ring) ↔
      ∀ ring ∈ polygon.rings, Ring.cleaned ring = ring :=
    forall₂_congr fun ring member => (settled ring member).2.symm
  rw [same, ofRings_eq_ok_iff, Ring.clean_eq_ok_iff, cleanHoles_eq_ok_iff]
  simp only [rings, List.forall_mem_cons] at settled ⊢
  obtain ⟨⟨⟨finite, several⟩, -⟩, rest⟩ := settled
  have mapped : polygon.holes.map Ring.cleaned = polygon.holes ↔
      ∀ hole ∈ polygon.holes, Ring.cleaned hole = hole := by
    simpa using List.map_inj_left (l := polygon.holes) (f := Ring.cleaned) (g := id)
  constructor
  · rintro ⟨⟨-, first, -⟩, ⟨-, later⟩, -⟩
    exact ⟨first.symm, mapped.1 later.symm⟩
  · rintro ⟨first, later⟩
    refine ⟨⟨finite, first.symm, several⟩, ⟨fun hole member => ?_, ?_⟩, area, boxed⟩
    · rw [later hole member]
      exact (rest hole member).1
    · exact (mapped.2 later).symm

/-- What is drawn of a single ring. -/
theorem ofRings_ring (finite : ∀ v ∈ outer, v.isFinite = true)
    (left : polygon.outer = Ring.cleaned outer) (several : 3 ≤ polygon.outer.length)
    (plain : polygon.holes = []) (area : ¬Scalar.abs (Ring.area polygon.outer) < Scalar.eps)
    (boxed : Box.around? polygon.outer = some polygon.box) :
    ofRings outer [] = .ok polygon :=
  ofRings_eq_ok_iff.2 ⟨Ring.clean_eq_ok_iff.2 ⟨finite, left, several⟩,
    cleanHoles_eq_ok_iff.2 ⟨by simp, plain⟩, area, boxed⟩

variable [Scalar.Linear α]

/-- What always holds of an outline, and what does exactly when no ring that it was made from
comes back to its first vertex twice in a row. -/
theorem drawn_rings (made : ofRings outer holes = .ok polygon) :
    (∀ ring ∈ polygon.rings, 3 ≤ ring.length ∧ (∀ v ∈ ring, v.isFinite = true) ∧
      ∀ a b, (a, b) ∈ Sequence.adjacent ring → b.samePlanar a = false) ∧
    (¬Scalar.abs (Ring.area polygon.outer) < Scalar.eps ∧
      (Scalar.IsNumber (Scalar.abs (Ring.area polygon.outer)) →
        Scalar.eps ≤ Scalar.abs (Ring.area polygon.outer))) ∧
    polygon.box.Tight {v | v ∈ polygon.outer} ∧
    ((∀ ring ∈ polygon.rings, Ring.Apart ring) ↔
      ∀ ring ∈ outer :: holes, Ring.ReturnsOnce ring) ∧
    (ofRings polygon.outer polygon.holes = .ok polygon ↔
      ∀ ring ∈ polygon.rings, Ring.Apart ring) := by
  obtain ⟨rings, left⟩ := rings_of_ofRings made
  obtain ⟨-, -, area, boxed⟩ := ofRings_eq_ok_iff.1 made
  have sound : ∀ ring ∈ polygon.rings, 3 ≤ ring.length ∧ (∀ v ∈ ring, v.isFinite = true) ∧
      ∀ a b, (a, b) ∈ Sequence.adjacent ring → b.samePlanar a = false := by
    rw [rings, List.forall_mem_map]
    intro ring member
    obtain ⟨finite, several⟩ := left ring member
    exact ⟨several, fun v vertex => finite v ((Ring.cleaned_sublist ring).subset vertex),
      fun a b pair => Ring.apart_of_mem_adjacent several pair⟩
  refine ⟨sound, ⟨area, fun number => ?_⟩, ?_, ?_, redrawn_iff made⟩
  · exact Scalar.Linear.le_of_not_lt number Scalar.Linear.isNumber_eps area
  · exact Box.tight_of_around? boxed (sound polygon.outer (by simp [Polygon.rings])).2.1
  · rw [rings, List.forall_mem_map]
    exact forall₂_congr fun ring member => Ring.apart_cleaned_iff (left ring member).2


/-! ### A ring that comes back twice -/

/-- A square, with a corner given twice and the first corner at the end. -/
def square : List (Point Float) :=
  [⟨0, 0, 0⟩, ⟨10, 0, 0⟩, ⟨10, 0, 3⟩, ⟨10, 10, 0⟩, ⟨0, 10, 0⟩, ⟨0, 0, 0⟩]

/-- The outline drawn of it. -/
def squared : Polygon Float :=
  ⟨[⟨0, 0, 0⟩, ⟨10, 0, 0⟩, ⟨10, 10, 0⟩, ⟨0, 10, 0⟩], [], ⟨0, 0, 10, 10⟩⟩

theorem square_drawn :
    ofRings square [] = .ok squared ∧ squared.box.Tight {v | v ∈ squared.outer} ∧
      (∀ ring ∈ [square], Ring.ReturnsOnce ring) ∧
      ofRings squared.outer squared.holes = .ok squared := by
  have made : ofRings square [] = .ok squared := by apply ofRings_ring <;> decide +kernel
  have around : ∀ edge ∈ Sequence.cyclic squared.outer, edge.2.samePlanar edge.1 = false := by
    decide +kernel
  have apart : ∀ ring ∈ squared.rings, Ring.Apart ring :=
    List.forall_mem_singleton.2 fun a b edge => around (a, b) edge
  obtain ⟨-, -, tight, returns, redrawn⟩ := drawn_rings made
  exact ⟨made, tight, returns.1 apart, redrawn.2 apart⟩

/-- A triangle that ends with two more vertices at its first one, further apart from each other
than vertices at one position may be. -/
def knot : List (Point Float) :=
  [⟨0, 0, 0⟩, ⟨10, 0, 0⟩, ⟨10, 10, 0⟩, ⟨0.0000000008, 0, 0⟩, ⟨-0.0000000008, 0, 0⟩]

/-- The outline drawn of it. -/
def knotted : Polygon Float := ⟨knot.take 4, [], ⟨0, 0, 10, 10⟩⟩

/-- Only the last of the two is taken off.  The other closes the ring with an edge from a
position to itself, and drawing the outline once more takes that off too. -/
theorem knot_left :
    ofRings knot [] = .ok knotted ∧
      (∃ a b, (a, b) ∈ Sequence.cyclic knotted.outer ∧ b.samePlanar a = true) ∧
      ofRings knotted.outer knotted.holes = .ok ⟨knot.take 3, [], ⟨0, 0, 10, 10⟩⟩ := by
  refine ⟨?_, ⟨⟨0.0000000008, 0, 0⟩, ⟨0, 0, 0⟩, ?_, ?_⟩, ?_⟩
  · apply ofRings_ring <;> decide +kernel
  · decide +kernel
  · decide +kernel
  · apply ofRings_ring <;> decide +kernel

end Polygon

end RoadNoise
