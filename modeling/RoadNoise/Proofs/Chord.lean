/-
# RoadNoise.Proofs.Chord -- a polygon cut in two along a chord

A chord between two vertices splits a ring into the way there and the way back, and closes
both of them, in opposite directions.  A ray meets an edge in both directions or in neither,
so what the chord adds to the two counts cancels: a place is inside the whole exactly when it
is inside one of the parts and not inside the other (`contains_split`).  It does not matter
where the chord runs, inside, outside or across the ring; the rectangles of the parts keep
out nothing that parity would let in (`contains_iff_odd`).
-/
import RoadNoise.Proofs.Parity

set_option autoImplicit false

namespace RoadNoise.Polygon

variable {polygon whole left right : Polygon ℝ} {ring ring' there back : List (Point ℝ)}
  {a b p : Point ℝ}

/-! ## Rings that are drawn as they are -/

/-- Without holes the outer ring decides, wherever it is said to begin. -/
theorem contains_iff_of_plain (drawn : polygon.Drawn) (plain : polygon.holes = [])
    (turned : polygon.outer.IsRotated ring) :
    polygon.contains p = true ↔ (Sequence.cyclic ring).countP (meetsRay p) % 2 = 1 := by
  have framed : polygon.Framed := drawn.framed (by simp [HolesInBox, plain])
  have edges : polygon.edges = Sequence.cyclic polygon.outer := by simp [edges, rings, plain]
  rw [contains_iff_odd framed, edges, (Sequence.perm_cyclic_of_isRotated turned).countP_eq]

/-- The polygon drawn of a ring whose vertices are told apart has just this ring. -/
theorem ring_of_pairwise (apart : ring.Pairwise fun u v => v.samePlanar u = false)
    (made : ofRings ring [] = .ok polygon) : polygon.outer = ring ∧ polygon.holes = [] := by
  obtain ⟨first, later, -⟩ := ofRings_eq_ok_iff.1 made
  obtain ⟨-, outer, -⟩ := Ring.clean_eq_ok_iff.1 first
  obtain ⟨-, holes⟩ := cleanHoles_eq_ok_iff.1 later
  exact ⟨outer.trans (Ring.cleaned_of_pairwise apart), holes⟩

theorem pairwise_apart_of_isRotated (apart : ring.Pairwise fun u v => v.samePlanar u = false)
    (turned : ring.IsRotated ring') : ring'.Pairwise fun u v => v.samePlanar u = false := by
  refine (turned.perm.pairwise_iff fun {u v} different => ?_).1 apart
  rwa [Point.samePlanar_comm]

/-! ## Parts -/

/-- The ring of a part is met by the way it takes from the whole and by the chord. -/
theorem countP_closed (p a b : Point ℝ) (there : List (Point ℝ)) :
    (Sequence.cyclic (a :: there ++ [b])).countP (meetsRay p)
      = (Sequence.adjacent (a :: there ++ [b])).countP (meetsRay p)
        + (meetsRay p (a, b)).toNat := by
  rw [Sequence.cyclic_concat, List.countP_append, ← meetsRay_swap]
  cases met : meetsRay p (b, a) <;> simp [met]

theorem contains_part_iff (apart : whole.outer.Pairwise fun u v => v.samePlanar u = false)
    (chord : whole.outer.IsRotated (a :: there ++ b :: back))
    (part : ring.IsRotated (a :: there ++ [b])) (made : ofRings ring [] = .ok polygon) :
    polygon.contains p = true ↔
      ((Sequence.adjacent (a :: there ++ [b])).countP (meetsRay p)
        + (meetsRay p (a, b)).toNat) % 2 = 1 := by
  have along : (a :: there ++ [b]).Sublist (a :: there ++ b :: back) := by simp
  obtain ⟨outer, plain⟩ := ring_of_pairwise
    (pairwise_apart_of_isRotated ((pairwise_apart_of_isRotated apart chord).sublist along)
      part.symm) made
  rw [contains_iff_of_plain ⟨_, _, made⟩ plain (outer ▸ part), countP_closed]

/-- A chord between two vertices, neighbours or not, splits what the polygon holds.  When both
parts are drawn they have three vertices each, so there are vertices on both ways. -/
theorem contains_split (drawn : whole.Drawn) (plain : whole.holes = [])
    (apart : whole.outer.Pairwise fun u v => v.samePlanar u = false)
    (chord : whole.outer.IsRotated (a :: there ++ b :: back))
    (first : ring.IsRotated (a :: there ++ [b])) (second : ring'.IsRotated (b :: back ++ [a]))
    (made : ofRings ring [] = .ok left) (made' : ofRings ring' [] = .ok right) (p : Point ℝ) :
    whole.contains p = (left.contains p ^^ right.contains p) := by
  have chord' : whole.outer.IsRotated (b :: back ++ a :: there) :=
    chord.trans List.isRotated_append
  have inWhole := contains_iff_of_plain (p := p) drawn plain chord
  rw [Sequence.cyclic_cons_append_cons, List.countP_append] at inWhole
  have inLeft := contains_part_iff (p := p) apart chord first made
  have inRight := contains_part_iff (p := p) apart chord' second made'
  rw [meetsRay_swap] at inRight
  have parity : whole.contains p = true ↔ ¬(left.contains p = true ↔ right.contains p = true) := by
    rw [inWhole, inLeft, inRight]
    omega
  refine Bool.eq_iff_iff.2 (parity.trans ?_)
  cases left.contains p <;> cases right.contains p <;> decide

/-! ## A dart -/

/-- Two wings, with a notch between them at the back. -/
noncomputable def dartRing : List (Point ℝ) :=
  [⟨0, 0, 0⟩, ⟨2.0, 4.0, 0⟩, ⟨4.0, 0, 0⟩, ⟨2.0, 1.0, 0⟩]

theorem dartRing_apart : dartRing.Pairwise fun u v => v.samePlanar u = false := by
  simp [dartRing, Point.samePlanar, Scalar.near, Scalar.eps_eq]
  norm_num

/-- Three vertices with an area are drawn as they are, and the ring decides what is inside. -/
theorem exists_ofRings_triangle {a b c : Point ℝ}
    (apart : [a, b, c].Pairwise fun u v => v.samePlanar u = false)
    (area : Scalar.eps ≤ |Ring.area [a, b, c]|) : ∃ polygon, ofRings [a, b, c] [] = .ok polygon ∧
      ∀ p, polygon.contains p = true ↔
        [(a, b), (b, c), (c, a)].countP (meetsRay p) % 2 = 1 := by
  have made := ofRings_of_pairwise (by simp) apart area
  exact ⟨_, made, fun p => contains_iff_of_plain ⟨_, _, made⟩ rfl (.refl _)⟩

/-- The chord from the end of one wing to the other runs outside.  A place on it is inside
both parts, the triangle around the dart and the notch, and so it is not inside the dart. -/
theorem dart_split : ∃ dart triangle notch : Polygon ℝ,
    ofRings dartRing [] = .ok dart ∧
    ofRings [⟨0, 0, 0⟩, ⟨2.0, 4.0, 0⟩, ⟨4.0, 0, 0⟩] [] = .ok triangle ∧
    ofRings [⟨4.0, 0, 0⟩, ⟨2.0, 1.0, 0⟩, ⟨0, 0, 0⟩] [] = .ok notch ∧
    triangle.contains ⟨2, 0, 0⟩ = true ∧ notch.contains ⟨2, 0, 0⟩ = true ∧
    dart.contains ⟨2, 0, 0⟩ = false := by
  have dart := ofRings_of_pairwise (by simp) dartRing_apart (by
    simp [Ring.area, Sequence.cyclic, Scalar.eps_eq]
    norm_num)
  obtain ⟨triangle, first, inFirst⟩ := exists_ofRings_triangle
    (a := ⟨0, 0, 0⟩) (b := ⟨2.0, 4.0, 0⟩) (c := ⟨4.0, 0, 0⟩)
    (dartRing_apart.sublist (by simp [dartRing])) (by
      simp [Ring.area, Sequence.cyclic, Scalar.eps_eq]
      norm_num)
  obtain ⟨notch, second, inSecond⟩ := exists_ofRings_triangle
    (a := ⟨4.0, 0, 0⟩) (b := ⟨2.0, 1.0, 0⟩) (c := ⟨0, 0, 0⟩)
    (by
      simp [Point.samePlanar, Scalar.near, Scalar.eps_eq]
      norm_num)
    (by
      simp [Ring.area, Sequence.cyclic, Scalar.eps_eq]
      norm_num)
  have inTriangle : triangle.contains ⟨2, 0, 0⟩ = true := by
    rw [inFirst]
    norm_num [List.countP_cons, meetsRay_iff]
  have inNotch : notch.contains ⟨2, 0, 0⟩ = true := by
    rw [inSecond]
    norm_num [List.countP_cons, meetsRay_iff]
  have chord : dartRing.IsRotated
      ([⟨0, 0, 0⟩, ⟨2.0, 4.0, 0⟩] ++ [⟨4.0, 0, 0⟩, ⟨2.0, 1.0, 0⟩]) := .refl _
  have split := contains_split ⟨_, _, dart⟩ rfl dartRing_apart chord (.refl _) (.refl _) first
    second ⟨2, 0, 0⟩
  rw [inTriangle, inNotch] at split
  exact ⟨_, triangle, notch, dart, first, second, inTriangle, inNotch, split⟩

end RoadNoise.Polygon
