/-
# RoadNoise.Proofs.Visit -- a visit is a search through all sequences

A visit walks the tree of wall sequences with one stack and leaves a branch as soon as
its last wall cannot follow.  The plain search makes all sequences of a length first, in
the order of their first differing entries, and looks at each one on its own.  Both find
the same (`visit_eq`): a sequence can be extended wall by wall exactly when no wall comes
twice in a row, all its images exist, and each wall faces the image before it
(`extended?_eq_some_iff`).  The stack comes back as it was, whatever is visited.
-/
import RoadNoise.Proofs.Sequence
import RoadNoise.Ray.Reflection

set_option autoImplicit false

namespace RoadNoise

/-! ## All sequences -/

namespace Sequence

variable {γ : Type}

/-- All sequences of `n` of the items, in the order of the first place where they
differ. -/
def ofLength (items : List γ) : Nat → List (List γ)
  | 0 => [[]]
  | n + 1 => items.flatMap fun c => (ofLength items n).map (c :: ·)

theorem mem_ofLength {items : List γ} {n : Nat} {l : List γ} :
    l ∈ ofLength items n ↔ l.length = n ∧ ∀ c ∈ l, c ∈ items := by
  induction n generalizing l with
  | zero =>
      simp only [ofLength, List.mem_singleton, List.length_eq_zero_iff]
      constructor
      · rintro rfl
        simp
      · exact And.left
  | succ n ih =>
      simp only [ofLength, List.mem_flatMap, List.mem_map, ih]
      constructor
      · rintro ⟨c, item, rest, ⟨rfl, items⟩, rfl⟩
        exact ⟨rfl, List.forall_mem_cons.2 ⟨item, items⟩⟩
      · rintro ⟨length, items⟩
        cases l with
        | nil => simp at length
        | cons c rest =>
            obtain ⟨item, items⟩ := List.forall_mem_cons.1 items
            exact ⟨c, item, rest, ⟨by simpa using length, items⟩, rfl⟩

/-- Items in the order of a key make sequences in the lexicographic order of that key. -/
theorem pairwise_ofLength {items : List γ} (key : γ → Nat)
    (ascending : items.Pairwise fun a b => key a < key b) (n : Nat) :
    (ofLength items n).Pairwise fun u v => List.Lex (· < ·) (u.map key) (v.map key) := by
  induction n with
  | zero => simp [ofLength]
  | succ n ih =>
      refine List.pairwise_flatMap.2 ⟨fun c _ => ?_, ascending.imp ?_⟩
      · exact List.pairwise_map.2 (ih.imp fun earlier => .cons earlier)
      · intro a b below u first v second
        obtain ⟨rest, -, rfl⟩ := List.mem_map.1 first
        obtain ⟨rest', -, rfl⟩ := List.mem_map.1 second
        exact .rel below

end Sequence

/-! ## Extending a sequence -/

/-- The images of a place in a sequence of walls, each the image of the one before; none
if a wall spans no plane. -/
def images? {α : Type} [Scalar α] (image : Point α) : List (Wall α) → Option (List (Point α))
  | [] => some []
  | wall :: rest =>
      (image.image? wall.p0 wall.p1).bind fun next => (images? next rest).map (next :: ·)

namespace Scene

variable {α : Type} [Scalar α]

/-- The image of the source in all walls of a sequence, last wall first. -/
def lastImage (source : Point α) (sequence : List (Bounce α)) : Point α :=
  (sequence.head?.map Bounce.image).getD source

/-- The sequence with more walls on it, if each can follow the ones before. -/
def extended? (s : Scene α) (source : Point α) :
    List (Bounce α) → List (Nat × Wall α) → Option (List (Bounce α))
  | sequence, [] => some sequence
  | sequence, (number, wall) :: rest =>
      (s.extension? source sequence number wall).bind fun b =>
        s.extended? source (b :: sequence) rest

variable {s : Scene α} {source : Point α}

theorem extension?_eq_some_iff {sequence : List (Bounce α)} {number : Nat} {wall : Wall α}
    {b : Bounce α} : s.extension? source sequence number wall = some b ↔
      (∀ last ∈ sequence.head?, last.number ≠ number) ∧
      s.faces wall (lastImage source sequence) = true ∧
      ∃ next, (lastImage source sequence).image? wall.p0 wall.p1 = some next ∧
        b = ⟨number, wall, next⟩ := by
  have repeated : ((sequence.head?.map Bounce.number) == some number) = true ↔
      ¬∀ last ∈ sequence.head?, last.number ≠ number := by
    cases sequence.head? <;> simp
  unfold extension?
  split
  · rename_i same
    exact iff_of_false (by simp) fun ⟨other, _⟩ => repeated.1 same other
  · rename_i other
    rw [repeated, not_not] at other
    unfold bounce?
    change (if s.faces wall (lastImage source sequence) = true then
      ((lastImage source sequence).image? wall.p0 wall.p1).map _ else none) = some b ↔ _
    split_ifs with faces
    · rw [Option.map_eq_some_iff]
      constructor
      · rintro ⟨next, image, rfl⟩
        exact ⟨other, faces, next, image, rfl⟩
      · rintro ⟨-, -, next, image, rfl⟩
        exact ⟨next, image, rfl⟩
    · simp [faces]

/-- When a sequence can be extended by some walls, and what comes of it. -/
theorem extended?_eq_some_iff {sequence whole : List (Bounce α)} {walls : List (Nat × Wall α)} :
    s.extended? source sequence walls = some whole ↔
      (∀ last ∈ sequence.head?, ∀ next ∈ walls.head?, last.number ≠ next.1) ∧
      (walls.map Prod.fst).IsChain (· ≠ ·) ∧
      ∃ images, images? (lastImage source sequence) (walls.map Prod.snd) = some images ∧
        (∀ e ∈ walls.zip (lastImage source sequence :: images), s.faces e.1.2 e.2 = true) ∧
        whole = (walls.zipWith (fun w image => ⟨w.1, w.2, image⟩) images).reverse ++ sequence := by
  induction walls generalizing sequence with
  | nil =>
      simp only [extended?, Option.some.injEq, List.map_nil, images?]
      constructor
      · rintro rfl
        simp
      · rintro ⟨-, -, images, -, -, rfl⟩
        simp
  | cons first rest ih =>
      obtain ⟨number, wall⟩ := first
      have top : ∀ b : Bounce α, lastImage source (b :: sequence) = b.image := fun b => rfl
      simp only [extended?, Option.bind_eq_some_iff, extension?_eq_some_iff, ih, top, images?,
        Option.map_eq_some_iff, List.map_cons, List.isChain_cons]
      constructor
      · rintro ⟨_, ⟨other, faces, next, image, rfl⟩, apart, chain, images, made, facing, rfl⟩
        refine ⟨?_, ⟨?_, chain⟩, next :: images, ⟨next, image, images, made, rfl⟩, ?_, ?_⟩
        · intro last isLast w isFirst
          obtain rfl := Option.some.inj isFirst
          exact other last isLast
        · intro m isSecond
          rw [List.head?_map] at isSecond
          obtain ⟨w, second, rfl⟩ := Option.mem_map.1 isSecond
          exact apart _ rfl w second
        · exact List.forall_mem_cons.2 ⟨faces, facing⟩
        · simp
      · rintro ⟨other, ⟨apart, chain⟩, images, ⟨next, image, later, made, rfl⟩, facing, rfl⟩
        obtain ⟨faces, facing⟩ := List.forall_mem_cons.1 facing
        refine ⟨_,
          ⟨fun last isLast => other last isLast (number, wall) rfl, faces, next, image, rfl⟩,
          ?_, chain, later, made, facing, ?_⟩
        · intro last isLast w isSecond
          obtain rfl := Option.some.inj isLast
          refine apart w.1 ?_
          rw [List.head?_map]
          exact Option.mem_map_of_mem Prod.fst isSecond
        · simp

/-- An extended sequence has the walls that were put on it. -/
theorem walls_of_extended? {sequence whole : List (Bounce α)} {walls : List (Nat × Wall α)}
    (extended : s.extended? source sequence walls = some whole) :
    whole.reverse.map (fun b => (b.number, b.wall))
      = sequence.reverse.map (fun b => (b.number, b.wall)) ++ walls := by
  induction walls generalizing sequence with
  | nil =>
      obtain rfl : sequence = whole := by simpa [extended?] using extended
      simp
  | cons first rest ih =>
      obtain ⟨b, extension, later⟩ := Option.bind_eq_some_iff.1 extended
      obtain ⟨-, -, next, -, rfl⟩ := extension?_eq_some_iff.1 extension
      rw [ih later]
      simp

/-! ## Visits -/

variable {β : Type} {candidates : List (Nat × Wall α)} {emit : List (Bounce α) → List β}

/-- Trying one candidate after the other leaves the stack alone if each visit does. -/
theorem foldl_extension? (s : Scene α) (source : Point α)
    {visits : List (Bounce α) → List β × List (Bounce α)}
    (restores : ∀ stack, (visits stack).2 = stack) (sequence : List (Bounce α))
    (candidates : List (Nat × Wall α)) (found : List β) :
    candidates.foldl (fun (found, sequence) (number, wall) =>
        match s.extension? source sequence number wall with
        | some b => (found ++ (visits (b :: sequence)).1, (visits (b :: sequence)).2.tail)
        | none => (found, sequence)) (found, sequence)
      = (found ++ candidates.flatMap fun c =>
          (s.extension? source sequence c.1 c.2).elim [] fun b => (visits (b :: sequence)).1,
        sequence) := by
  induction candidates generalizing found with
  | nil => simp
  | cons c candidates ih =>
      rw [List.foldl_cons, List.flatMap_cons, ← List.append_assoc, ← ih]
      cases extended : s.extension? source sequence c.1 c.2 with
      | none => simp [extended]
      | some b => simp [extended, restores]

/-- A visit collects what `emit` makes of all sequences that extend its own, and hands
its own back. -/
theorem visit_eq (more : Nat) (sequence : List (Bounce α)) :
    s.visit candidates source emit more sequence
      = (((Sequence.ofLength candidates more).filterMap (s.extended? source sequence)).flatMap
          emit, sequence) := by
  induction more generalizing sequence with
  | zero => simp [visit, Sequence.ofLength, extended?]
  | succ more ih =>
      have restores : ∀ stack, (s.visit candidates source emit more stack).2 = stack :=
        fun stack => by rw [ih]
      have step := s.foldl_extension? source restores sequence candidates []
      rw [List.nil_append] at step
      refine Eq.trans ?_ (step.trans ?_)
      · rfl
      · congr 1
        rw [Sequence.ofLength, List.filterMap_flatMap, List.flatMap_assoc]
        refine List.flatMap_congr fun c _ => ?_
        obtain ⟨number, wall⟩ := c
        rw [List.filterMap_map]
        cases extended : s.extension? source sequence number wall with
        | none => simp [Function.comp_def, extended?, extended]
        | some b => simp [Function.comp_def, extended?, extended, ih]

/-! ## Reflected paths -/

variable {receiver : Point α} {options : PathOptions α}

/-- The paths by way of walls, without a stack. -/
theorem reflectedPaths_eq (s : Scene α) (source receiver : Point α) (options : PathOptions α) :
    s.reflectedPaths source receiver options
      = (List.range options.maxOrder).flatMap fun n =>
          ((Sequence.ofLength (s.reflectors source receiver options.maxReflectionDistance)
            (n + 1)).filterMap (s.extended? source [])).filterMap
              (s.reflectedPath? source receiver options.sourceFactor) := by
  unfold reflectedPaths
  split_ifs with none
  · simp [none]
  · simp only [visit_eq, List.filterMap_eq_flatMap_toList]

/-- A path by way of walls comes from a sequence of walls that may reflect. -/
theorem exists_of_mem_reflectedPaths {path : Path α}
    (isPath : path ∈ s.reflectedPaths source receiver options) :
    ∃ walls sequence, (1 ≤ walls.length ∧ walls.length ≤ options.maxOrder) ∧
      (∀ w ∈ walls, w ∈ s.reflectors source receiver options.maxReflectionDistance) ∧
      s.extended? source [] walls = some sequence ∧
      s.reflectedPath? source receiver options.sourceFactor sequence = some path := by
  rw [reflectedPaths_eq] at isPath
  obtain ⟨n, order, isPath⟩ := List.mem_flatMap.1 isPath
  obtain ⟨sequence, continued, made⟩ := List.mem_filterMap.1 isPath
  obtain ⟨walls, listed, extended⟩ := List.mem_filterMap.1 continued
  obtain ⟨length, candidates⟩ := Sequence.mem_ofLength.1 listed
  rw [List.mem_range] at order
  exact ⟨walls, sequence, ⟨by omega, by omega⟩, candidates, extended, made⟩

theorem mem_reflectors {distance : α} {number : Nat} {wall : Wall α} :
    (number, wall) ∈ s.reflectors source receiver distance ↔
      (number ∈ s.wallsNear source distance ∨ number ∈ s.wallsNear receiver distance) ∧
        s.walls[number]? = some wall ∧ wall.absorption < 1 := by
  simp only [reflectors, List.mem_filterMap, Sequence.mem_ascending, List.mem_append]
  constructor
  · rintro ⟨w, near, kept⟩
    split at kept
    · rename_i found entry
      split_ifs at kept with reflects
      obtain ⟨rfl, rfl⟩ := Prod.mk.inj (Option.some.inj kept)
      exact ⟨near, entry, reflects⟩
    · simp at kept
  · rintro ⟨near, entry, reflects⟩
    exact ⟨number, near, by simp [entry, reflects]⟩

/-- One step of the walk back: off the last wall, at an inner place of the line to its
image, and on from there. -/
theorem walkBack_cons_eq_some_iff {target : Point α} {b : Bounce α} {earlier : List (Bounce α)}
    {points : List (Point α)} : walkBack target (b :: earlier) = some points ↔
      ∃ t r before, Crossing.of target b.image b.wall.p0 b.wall.p1 = .point t r ∧
        (Scalar.eps < t ∧ t < 1 - Scalar.eps) ∧
        walkBack (Point.between target b.image t) earlier = some before ∧
        points = before ++ [Point.between target b.image t] := by
  rw [walkBack]
  split
  · rename_i t r met
    split_ifs with inner
    · simp [met, inner, eq_comm]
    · refine iff_of_false (by simp) ?_
      rintro ⟨t', r', before, met', inner', -⟩
      obtain ⟨rfl, -⟩ := Crossing.point.inj (met.symm.trans met')
      exact inner inner'
  · rename_i missed
    refine iff_of_false (by simp) ?_
    rintro ⟨t, r, before, met, -⟩
    exact missed t r met

theorem length_walkBack {target : Point α} {sequence : List (Bounce α)} {points : List (Point α)}
    (walked : walkBack target sequence = some points) : points.length = sequence.length := by
  induction sequence generalizing target points with
  | nil =>
      obtain rfl : [] = points := by simpa [walkBack] using walked
      rfl
  | cons b earlier ih =>
      obtain ⟨t, r, before, -, -, earlierWalked, rfl⟩ := walkBack_cons_eq_some_iff.1 walked
      rw [List.length_append, ih earlierWalked, List.length_singleton, List.length_cons]

/-- The way over a sequence of walls meets every wall below its roof, and no leg of it
is obstructed. -/
theorem unfoldedWay?_eq_some_iff {sequence : List (Bounce α)} {way : List (Point α)} :
    s.unfoldedWay? source receiver sequence = some way ↔
      ∃ points, walkBack receiver sequence = some points ∧
        way = Polyline.graded (source :: points ++ [receiver]) ∧
        (∀ e ∈ sequence.reverse.zip (Polyline.inner way), s.belowRoof e.1.wall e.2 = true) ∧
        ∀ leg ∈ Sequence.adjacent way, s.obstructed leg.1 leg.2 = false := by
  unfold unfoldedWay?
  split
  · rename_i missed
    simp [missed]
  · rename_i points walked
    simp only [walked, Option.some.injEq, exists_eq_left']
    split_ifs with passes
    · simp only [Bool.and_eq_true, List.all_eq_true, Bool.not_eq_true'] at passes
      simp only [Option.some.injEq]
      constructor
      · rintro rfl
        exact ⟨rfl, passes⟩
      · exact fun made => made.1.symm
    · refine iff_of_false (by simp) ?_
      rintro ⟨rfl, low, free⟩
      refine passes (Bool.and_eq_true_iff.2 ⟨List.all_eq_true.2 low, List.all_eq_true.2 ?_⟩)
      intro leg isLeg
      rw [free leg isLeg, Bool.not_false]

end Scene

end RoadNoise
