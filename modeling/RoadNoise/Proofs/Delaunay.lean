/-
# RoadNoise.Proofs.Delaunay -- the triangles of a list of points

From the outermost triangle on, every point keeps the triangles a tiling with empty
circles, as long as the tolerances decide nothing (`Decided`): no three points are
nearly on a line, and no point is so near to a circle that it counts as in it while
it is not.  What `delaunay?` answers are the triangles of this tiling that have no
corner of the outermost one (`delaunay?_eq_some_iff`).
-/
import RoadNoise.Proofs.Cavity
import RoadNoise.Proofs.Outline

set_option autoImplicit false

namespace RoadNoise

open Triangulation

/-! ## The outermost triangle -/

section Outermost

variable {n : Nat} {box : Box ℝ} {whole : Triangle ℝ}

/-- The middle of a rectangle and the size of its outermost triangle. -/
noncomputable def Box.frame (b : Box ℝ) : ℝ × ℝ × ℝ :=
  ((b.xmin + b.xmax) * 0.5, (b.ymin + b.ymax) * 0.5,
    50 * max (max (b.xmax - b.xmin) (b.ymax - b.ymin)) 1)

theorem corners_outermost? (made : outermost? n box = some whole) :
    whole.a = ⟨n, box.frame.1 - box.frame.2.2, box.frame.2.1 - box.frame.2.2, 0⟩ ∧
      whole.b = ⟨n + 1, box.frame.1 + box.frame.2.2, box.frame.2.1 - box.frame.2.2, 0⟩ ∧
      whole.c = ⟨n + 2, box.frame.1, box.frame.2.1 + box.frame.2.2, 0⟩ ∧
      circle? whole.a.point whole.b.point whole.c.point = some whole.circle := by
  obtain ⟨o, through, rfl⟩ := Option.map_eq_some_iff.1 made
  exact ⟨rfl, rfl, rfl, through⟩

theorem fifty_le_frame (b : Box ℝ) : 50 ≤ b.frame.2.2 := by
  have wide : (1 : ℝ) ≤ max (max (b.xmax - b.xmin) (b.ymax - b.ymin)) 1 := le_max_right _ _
  simp only [Box.frame]
  linarith

theorem exists_outermost? (n : Nat) (box : Box ℝ) : ∃ whole, outermost? n box = some whole := by
  have wide := fifty_le_frame box
  obtain ⟨o, through⟩ := exists_circle?
    (a := ⟨box.frame.1 - box.frame.2.2, box.frame.2.1 - box.frame.2.2, 0⟩)
    (b := ⟨box.frame.1 + box.frame.2.2, box.frame.2.1 - box.frame.2.2, 0⟩)
    (c := ⟨box.frame.1, box.frame.2.1 + box.frame.2.2, 0⟩) (by
      have area : ∀ x y k : ℝ, doubleArea ⟨x - k, y - k, 0⟩ ⟨x + k, y - k, 0⟩ ⟨x, y + k, 0⟩
          = 4 * (k * k) := by
        intro x y k
        simp only [doubleArea]
        ring
      rw [area, abs_of_nonneg (by positivity)]
      nlinarith [Scalar.eps_lt_one])
  exact ⟨_, Option.map_eq_some_iff.2 ⟨o, through, rfl⟩⟩

theorem turned_outermost? (made : outermost? n box = some whole) : 0 < whole.area := by
  obtain ⟨a, b, c, -⟩ := corners_outermost? made
  have wide := fifty_le_frame box
  simp only [Triangle.area, a, b, c, doubleArea]
  nlinarith

/-- What the rectangle covers lies far within. -/
theorem within_outermost? (made : outermost? n box = some whole) {p : Point ℝ}
    (covers : box.Covers p) : whole.Within p := by
  obtain ⟨a, b, c, -⟩ := corners_outermost? made
  have wide := fifty_le_frame box
  obtain ⟨⟨left, right⟩, low, high⟩ := covers
  have extentX : 50 * (box.xmax - box.xmin) ≤ box.frame.2.2 := by
    have extent := (le_max_left (box.xmax - box.xmin) (box.ymax - box.ymin)).trans
      (le_max_left _ (1 : ℝ))
    simp only [Box.frame]
    linarith
  have extentY : 50 * (box.ymax - box.ymin) ≤ box.frame.2.2 := by
    have extent := (le_max_right (box.xmax - box.xmin) (box.ymax - box.ymin)).trans
      (le_max_left _ (1 : ℝ))
    simp only [Box.frame]
    linarith
  have middleX : 2 * box.frame.1 = box.xmin + box.xmax := by
    simp only [Box.frame]
    linarith
  have middleY : 2 * box.frame.2.1 = box.ymin + box.ymax := by
    simp only [Box.frame]
    linarith
  simp only [Triangle.Within, Within, a, b, c, doubleArea]
  generalize box.frame.1 = x at *
  generalize box.frame.2.1 = y at *
  generalize box.frame.2.2 = k at *
  refine ⟨?_, ?_, ?_⟩
  · nlinarith
  · nlinarith
  · nlinarith

end Outermost

/-! ## Corners and tolerances -/

variable {points : List (Point ℝ)} {whole : Triangle ℝ}

def numbered (points : List (Point ℝ)) : List (Corner ℝ) :=
  points.zipIdx.map fun (p, i) => ⟨i, p⟩

theorem mem_numbered {c : Corner ℝ} : c ∈ numbered points ↔ points[c.number]? = some c.point := by
  obtain ⟨i, p⟩ := c
  simp only [numbered, List.mem_map, Prod.exists, List.mk_mem_zipIdx_iff_getElem?]
  constructor
  · rintro ⟨q, j, entry, same⟩
    cases same
    exact entry
  · intro entry
    exact ⟨p, i, entry, rfl⟩

theorem lt_of_mem_numbered {c : Corner ℝ} (member : c ∈ numbered points) :
    c.number < points.length :=
  (List.getElem?_eq_some_iff.1 (mem_numbered.1 member)).1

theorem point_mem_of_mem_numbered {c : Corner ℝ} (member : c ∈ numbered points) :
    c.point ∈ points :=
  List.mem_of_getElem? (mem_numbered.1 member)

/-- The triangle that the points are inserted into. -/
noncomputable def outermost (points : List (Point ℝ)) : Option (Triangle ℝ) :=
  (Box.around? points).bind (outermost? points.length)

/-- The three places far out that the triangulation starts from. -/
noncomputable def outerCorners (points : List (Point ℝ)) : List (Point ℝ) :=
  (outermost points).elim [] fun whole => whole.corners.map Corner.point

theorem outerCorners_eq {box : Box ℝ} (around : Box.around? points = some box) :
    outerCorners points = [⟨box.frame.1 - box.frame.2.2, box.frame.2.1 - box.frame.2.2, 0⟩,
      ⟨box.frame.1 + box.frame.2.2, box.frame.2.1 - box.frame.2.2, 0⟩,
      ⟨box.frame.1, box.frame.2.1 + box.frame.2.2, 0⟩] := by
  obtain ⟨whole, made⟩ := exists_outermost? points.length box
  obtain ⟨a, b, c, -⟩ := corners_outermost? made
  have start : outermost points = some whole := by
    rw [outermost, around, Option.bind_some, made]
  rw [outerCorners, start]
  simp [Triangle.corners, a, b, c]

theorem exists_outermost (several : 3 ≤ points.length) :
    ∃ whole, outermost points = some whole := by
  cases points with
  | nil => simp at several
  | cons p ps => exact exists_outermost? _ _

/-- The tolerances decide nothing: three points on which they bear are on a line or well
off it, and a point that counts as in a circle is in it. -/
structure Decided (points : List (Point ℝ)) : Prop where
  area : ∀ a ∈ points ++ outerCorners points, ∀ b ∈ points ++ outerCorners points,
    ∀ c ∈ points ++ outerCorners points,
      doubleArea a b c = 0 ∨ Scalar.eps < |doubleArea a b c|
  circle : ∀ a ∈ points ++ outerCorners points, ∀ b ∈ points ++ outerCorners points,
    ∀ c ∈ points ++ outerCorners points, ∀ o, circle? a b c = some o →
      ∀ p ∈ points, o.holds p = true → o.power p ≤ 0

theorem point_mem_of_mem_known (start : outermost points = some whole) {c : Corner ℝ}
    (member : c ∈ numbered points ++ whole.corners) : c.point ∈ points ++ outerCorners points := by
  rcases List.mem_append.1 member with inner | outer
  · exact List.mem_append_left _ (point_mem_of_mem_numbered inner)
  · refine List.mem_append_right _ ?_
    rw [outerCorners, start]
    exact List.mem_map_of_mem outer

theorem known_numbered (start : outermost points = some whole) :
    Numbered (numbered points ++ whole.corners) := by
  obtain ⟨box, -, made⟩ := Option.bind_eq_some_iff.1 start
  obtain ⟨a, b, c, -⟩ := corners_outermost? made
  have outer : ∀ d ∈ whole.corners, points.length ≤ d.number ∧
      ∀ e ∈ whole.corners, d.number = e.number → d = e := by
    simp [Triangle.corners, a, b, c]
  intro d first e second same
  rcases List.mem_append.1 first with inner | far <;>
    rcases List.mem_append.1 second with inner' | far'
  · have here := mem_numbered.1 inner
    rw [same, mem_numbered.1 inner', Option.some.injEq] at here
    obtain ⟨i, p⟩ := d
    obtain ⟨j, q⟩ := e
    simp only at same here
    rw [same, here]
  · have := lt_of_mem_numbered inner
    have := (outer e far').1
    omega
  · have := lt_of_mem_numbered inner'
    have := (outer d far).1
    omega
  · exact (outer d far).2 e far' same

theorem known_framed (start : outermost points = some whole) :
    ∀ v ∈ numbered points ++ whole.corners, ∀ s ∈ whole.sides,
      0 ≤ doubleArea s.1.point s.2.point v.point := by
  obtain ⟨box, around, made⟩ := Option.bind_eq_some_iff.1 start
  intro v member s side
  rcases List.mem_append.1 member with inner | outer
  · obtain ⟨w, -, -, -, within⟩ := Triangle.exists_apex side
    have covers := Box.covers_of_around? around (point_mem_of_mem_numbered inner)
    exact ((within v.point).1 (within_outermost? made covers)).1.le
  · have turned := (turned_outermost? made).le
    have first := doubleArea_rotate whole.a.point whole.b.point whole.c.point
    have second := doubleArea_rotate whole.b.point whole.c.point whole.a.point
    simp only [Triangle.area] at turned
    simp only [Triangle.corners, Triangle.sides, List.mem_cons, List.not_mem_nil, or_false]
      at outer side
    rcases outer with rfl | rfl | rfl <;> rcases side with rfl | rfl | rfl <;>
      simp [first, second, turned]

theorem admits (decided : Decided points) (start : outermost points = some whole) {p : Corner ℝ}
    (member : p ∈ numbered points) : Admits whole (numbered points ++ whole.corners) p := by
  have known : ∀ c ∈ numbered points ++ whole.corners,
      c.point ∈ points ++ outerCorners points := fun c => point_mem_of_mem_known start
  have here := List.mem_append_left (outerCorners points) (point_mem_of_mem_numbered member)
  obtain ⟨box, around, made⟩ := Option.bind_eq_some_iff.1 start
  refine ⟨known_numbered start, turned_outermost? made, known_framed start, ?_, ?_, ?_⟩
  · exact within_outermost? made
      (Box.covers_of_around? around (point_mem_of_mem_numbered member))
  · intro a first b second positive
    rcases decided.area _ (known a first) _ (known b second) _ here with flat | solid
    · linarith
    · rwa [abs_of_pos positive] at solid
  · intro a first b second c third o through
    exact decided.circle _ (known a first) _ (known b second) _ (known c third) o through _
      (point_mem_of_mem_numbered member)

/-! ## The final triangles -/

noncomputable def inserted (points : List (Point ℝ)) : List (Triangle ℝ) :=
  (numbered points).foldl insertCorner (outermost points).toList

theorem tessellates (decided : Decided points) (start : outermost points = some whole) :
    Tessellates whole ((numbered points).reverse ++ whole.corners) (inserted points) := by
  obtain ⟨box, around, made⟩ := Option.bind_eq_some_iff.1 start
  have first := Tessellates.start (turned_outermost? made) (corners_outermost? made).2.2.2
  rw [inserted, start]
  exact first.foldl (fun p member => admits decided start member)
    (List.subset_append_right _ _) (List.subset_append_left _ _)

/-- The places of a triangle's corners in the list. -/
def Triangulation.Triangle.places (t : Triangle ℝ) : Nat × Nat × Nat :=
  (t.a.number, t.b.number, t.c.number)

theorem delaunay?_eq_some_iff (several : 3 ≤ points.length) {places : List (Nat × Nat × Nat)} :
    delaunay? points = some places ↔ places ≠ [] ∧
      places = ((inserted points).filter (·.remains points.length)).map Triangle.places := by
  obtain ⟨whole, start⟩ := exists_outermost several
  obtain ⟨box, around, made⟩ := Option.bind_eq_some_iff.1 start
  have final : inserted points = (numbered points).foldl insertCorner [whole] := by
    rw [inserted, start]
    rfl
  have computed : delaunay? points = if ((inserted points).filter (·.remains points.length)).isEmpty
      then none
      else some (((inserted points).filter (·.remains points.length)).map Triangle.places) := by
    simp only [delaunay?, not_lt.2 several, if_false, around, Option.bind_eq_bind,
      Option.bind_some, made, final]
    rfl
  rw [computed]
  split_ifs with nothing
  · rw [List.isEmpty_iff.1 nothing]
    simp
  · rw [Option.some.injEq, eq_comm]
    constructor
    · rintro rfl
      exact ⟨by simpa using nothing, rfl⟩
    · exact fun known => known.2

theorem point_mem_of_mem_inserted (decided : Decided points)
    (start : outermost points = some whole) {t : Triangle ℝ} (member : t ∈ inserted points) :
    ∀ c ∈ t.corners, c.point ∈ points ++ outerCorners points := by
  intro c corner
  have known := (tessellates decided start).corners t member c corner
  exact point_mem_of_mem_known start (by simpa using known)

theorem solid_of_mem_inserted (decided : Decided points) (start : outermost points = some whole)
    {t : Triangle ℝ} (member : t ∈ inserted points) : Scalar.eps < t.area := by
  have turned := (tessellates decided start).turned t member
  obtain ⟨first, second, third⟩ :=
    Triangle.forall_corners.1 (point_mem_of_mem_inserted decided start member)
  rcases decided.area _ first _ second _ third with flat | solid
  · exact absurd flat turned.ne'
  · exact solid.trans_eq (abs_of_pos turned)

theorem remains_iff (decided : Decided points) (start : outermost points = some whole)
    {t : Triangle ℝ} (member : t ∈ inserted points) :
    t.remains points.length = true ↔ ∀ c ∈ t.corners, c ∈ numbered points := by
  have tess := tessellates decided start
  obtain ⟨box, -, made⟩ := Option.bind_eq_some_iff.1 start
  obtain ⟨a, b, c, -⟩ := corners_outermost? made
  have inner : ∀ c ∈ t.corners, c.number < points.length ↔ c ∈ numbered points := by
    intro d corner
    refine ⟨fun below => ?_, lt_of_mem_numbered⟩
    rcases List.mem_append.1 (tess.corners t member d corner) with known | outer
    · exact List.mem_reverse.1 known
    · rw [Triangle.mem_corners, a, b, c] at outer
      rcases outer with rfl | rfl | rfl <;> simp at below
  have solid := (solid_of_mem_inserted decided start member).trans_le (le_abs_self _)
  have kept : t.remains points.length = true ↔ (t.a.number < points.length ∧
      t.b.number < points.length) ∧ t.c.number < points.length := by
    simp only [Triangle.remains, Bool.and_eq_true, decide_eq_true_eq, and_iff_left_iff_imp]
    exact fun _ => solid
  obtain ⟨first, second, third⟩ := Triangle.forall_corners.1 inner
  rw [kept, first, second, third, Triangle.forall_corners, and_assoc]

theorem exists_of_mem_delaunay? (several : 3 ≤ points.length) (decided : Decided points)
    {places : List (Nat × Nat × Nat)} (made : delaunay? points = some places)
    {place : Nat × Nat × Nat} (entry : place ∈ places) {a b c : Point ℝ}
    (first : points[place.1]? = some a) (second : points[place.2.1]? = some b)
    (third : points[place.2.2]? = some c) :
    ∃ t ∈ inserted points, (∀ d ∈ t.corners, d ∈ numbered points) ∧
      t.a.point = a ∧ t.b.point = b ∧ t.c.point = c := by
  obtain ⟨whole, start⟩ := exists_outermost several
  obtain ⟨-, rfl⟩ := (delaunay?_eq_some_iff several).1 made
  obtain ⟨t, remaining, rfl⟩ := List.mem_map.1 entry
  obtain ⟨member, remaining⟩ := List.mem_filter.1 remaining
  have known := (remains_iff decided start member).1 remaining
  have corner : ∀ d ∈ t.corners, ∀ e, points[d.number]? = some e → d.point = e := by
    intro d corner e atD
    exact Option.some.inj ((mem_numbered.1 (known d corner)).symm.trans atD)
  obtain ⟨atA, atB, atC⟩ := Triangle.forall_corners.1 corner
  exact ⟨t, member, known, atA a first, atB b second, atC c third⟩

end RoadNoise
