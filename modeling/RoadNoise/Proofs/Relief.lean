/-
# RoadNoise.Proofs.Relief -- facets over topographic points

The corners of every facet are topographic points, and a facet gives an elevation
only where its corners balance with no weight below the tolerance.  A place is looked up
in its cell: it has no elevation where no facet that is entered there accepts it
(`Relief.elevation?_eq_none_iff`).
-/
import RoadNoise.Proofs.Grid
import RoadNoise.Scene.Basic

set_option autoImplicit false

namespace RoadNoise

/-! ## Weights -/

theorem balance?_eq_some_iff {p a b c : Point ℝ} {w : ℝ × ℝ × ℝ} :
    balance? p a b c = some w ↔ Scalar.eps ≤ |doubleArea a b c| ∧
      w = (doubleArea p b c / doubleArea a b c, doubleArea a p c / doubleArea a b c,
        1 - doubleArea p b c / doubleArea a b c - doubleArea a p c / doubleArea a b c) := by
  unfold balance?
  dsimp only
  split_ifs with flat
  · have flat : |doubleArea a b c| < Scalar.eps := flat
    simp [not_le.2 flat]
  · have area : ¬|doubleArea a b c| < Scalar.eps := flat
    simp [not_lt.1 area, eq_comm]

namespace Facet

theorem elevation?_eq_some_iff {f : Facet ℝ} {p : Point ℝ} {z : ℝ} :
    f.elevation? p = some z ↔ ∃ wa wb wc, balance? p f.a f.b f.c = some (wa, wb, wc) ∧
      (-Scalar.eps ≤ wa ∧ -Scalar.eps ≤ wb ∧ -Scalar.eps ≤ wc) ∧
        z = wa * f.a.z + wb * f.b.z + wc * f.c.z := by
  unfold elevation?
  cases balanced : balance? p f.a f.b f.c with
  | none => simp
  | some w =>
      obtain ⟨wa, wb, wc⟩ := w
      dsimp only
      split_ifs with inside
      · simp [inside, eq_comm]
      · simp only [Option.some.injEq, Prod.mk.injEq, false_iff]
        rintro ⟨_, _, _, ⟨rfl, rfl, rfl⟩, admitted, -⟩
        exact inside admitted

/-- The weights of a place put it where it is. -/
theorem balance_spec {p a b c : Point ℝ} {wa wb wc : ℝ}
    (balanced : balance? p a b c = some (wa, wb, wc)) :
    wa + wb + wc = 1 ∧ p.x = wa * a.x + wb * b.x + wc * c.x ∧
      p.y = wa * a.y + wb * b.y + wc * c.y := by
  obtain ⟨area, weights⟩ := balance?_eq_some_iff.1 balanced
  obtain ⟨rfl, rfl, rfl⟩ : wa = _ ∧ wb = _ ∧ wc = _ := by simpa using weights
  have solid : doubleArea a b c ≠ 0 := by
    intro zero
    rw [zero, abs_zero] at area
    linarith [Scalar.eps_pos]
  refine ⟨by ring, ?_, ?_⟩
  · field_simp
    simp only [doubleArea]
    ring
  · field_simp
    simp only [doubleArea]
    ring

end Facet

/-! ## Facets of a relief -/

namespace Relief

theorem mem_verticesOf {α : Type} [Scalar α] {points : List (Point α)} {v : Point α}
    (vertex : v ∈ verticesOf points) : v ∈ points := by
  simpa using Sequence.mem_of_mem_thin vertex

theorem ofPoints?_eq_some {points : List (Point ℝ)} {r : Relief ℝ}
    (made : ofPoints? points = some r) :
    r.vertices = verticesOf points ∧ delaunay? r.vertices = some r.triangles ∧
      r.facets = (r.triangles.filterMap (facetOf? r.vertices.toArray)).toArray ∧
      r.grid = Grid.ofBoxes (r.facets.toList.map Facet.box) := by
  unfold ofPoints? at made
  dsimp only at made
  obtain ⟨triangles, found, made⟩ := Option.bind_eq_some_iff.1 made
  obtain rfl := Option.some.inj made
  exact ⟨rfl, found, rfl, rfl⟩

theorem facetOf?_eq_some_iff {vertices : List (Point ℝ)} {t : Nat × Nat × Nat} {f : Facet ℝ} :
    facetOf? vertices.toArray t = some f ↔ vertices[t.1]? = some f.a ∧
      vertices[t.2.1]? = some f.b ∧ vertices[t.2.2]? = some f.c := by
  obtain ⟨a, b, c⟩ := f
  simp only [facetOf?, Option.bind_eq_bind, Option.bind_eq_some_iff, List.getElem?_toArray,
    Option.pure_def, Option.some.injEq, Facet.mk.injEq]
  constructor
  · rintro ⟨_, first, _, second, _, third, rfl, rfl, rfl⟩
    exact ⟨first, second, third⟩
  · rintro ⟨first, second, third⟩
    exact ⟨a, first, b, second, c, third, rfl, rfl, rfl⟩

theorem corners_mem {points : List (Point ℝ)} {r : Relief ℝ} (made : ofPoints? points = some r)
    {k : Nat} {f : Facet ℝ} (entry : r.facets[k]? = some f) :
    f.a ∈ points ∧ f.b ∈ points ∧ f.c ∈ points := by
  obtain ⟨vertices, -, facets, -⟩ := ofPoints?_eq_some made
  rw [facets, List.getElem?_toArray] at entry
  obtain ⟨t, -, corners⟩ := List.mem_filterMap.1 (List.mem_of_getElem? entry)
  obtain ⟨first, second, third⟩ := facetOf?_eq_some_iff.1 corners
  rw [vertices] at first second third
  exact ⟨mem_verticesOf (List.mem_of_getElem? first), mem_verticesOf (List.mem_of_getElem? second),
    mem_verticesOf (List.mem_of_getElem? third)⟩

/-- An elevation comes from a facet. -/
theorem exists_facet_of_elevation? {r : Relief ℝ} {x y z : ℝ} (known : r.elevation? x y = some z) :
    ∃ (k : Nat) (f : Facet ℝ), r.facets[k]? = some f ∧ f.elevation? ⟨x, y, 0⟩ = some z := by
  obtain ⟨k, -, found⟩ := List.exists_of_findSome?_eq_some known
  obtain ⟨f, entry, here⟩ := Option.bind_eq_some_iff.1 found
  exact ⟨k, f, entry, here⟩

section Cells

variable {points : List (Point ℝ)} {r : Relief ℝ}

/-- The rectangle of the facet reaches into the cell of the place. -/
def Enters (r : Relief ℝ) (f : Facet ℝ) (p : Point ℝ) : Prop :=
  (Grid.line r.grid.step p.x, Grid.line r.grid.step p.y) ∈ (Grid.blockOf r.grid.step f.box).cells

theorem step_eq (made : ofPoints? points = some r) :
    r.grid.step = Grid.stepFor (r.facets.toList.map Facet.box) := by
  obtain ⟨-, -, -, grid⟩ := ofPoints?_eq_some made
  rw [grid]
  rfl

theorem step_pos (made : ofPoints? points = some r) : 0 < r.grid.step := by
  rw [step_eq made]
  exact Grid.stepFor_pos _

theorem mem_atPoint_iff (made : ofPoints? points = some r) {p : Point ℝ} {k : Nat} :
    k ∈ r.grid.atPoint p ↔ ∃ f, r.facets[k]? = some f ∧ r.Enters f p := by
  obtain ⟨-, -, -, grid⟩ := ofPoints?_eq_some made
  unfold Enters
  rw [step_eq made, grid, Grid.ofBoxes, Grid.mem_atPoint]
  simp only [List.getElem?_map, Option.map_eq_some_iff, Array.getElem?_toList]
  constructor
  · rintro ⟨box, ⟨f, entry, rfl⟩, cell⟩
    exact ⟨f, entry, cell⟩
  · rintro ⟨f, entry, cell⟩
    exact ⟨f.box, ⟨f, entry, rfl⟩, cell⟩

/-- A relief has nothing to say where no facet that is entered in the cell of the place
accepts it. -/
theorem elevation?_eq_none_iff (made : ofPoints? points = some r) {x y : ℝ} :
    r.elevation? x y = none ↔
      ∀ f ∈ r.facets, r.Enters f ⟨x, y, 0⟩ → f.elevation? ⟨x, y, 0⟩ = none := by
  simp only [elevation?, List.findSome?_eq_none_iff, mem_atPoint_iff made]
  constructor
  · intro silent f member enters
    obtain ⟨k, entry⟩ := Array.mem_iff_getElem?.1 member
    simpa [entry] using silent k ⟨f, entry, enters⟩
  · rintro silent k ⟨f, entry, enters⟩
    simpa [entry] using silent f (Array.mem_of_getElem? entry) enters

end Cells

theorem exists_of_mem_crossings {r : Relief ℝ} {p q : Point ℝ} {k : Sounding ℝ}
    (crossing : k ∈ r.crossings p q) : ∃ (i : Nat) (f : Facet ℝ), r.facets[i]? = some f ∧
      ∃ side ∈ f.sides, k ∈ soundings p q side.1 side.2 := by
  have crossing := Sequence.mem_of_mem_thin crossing
  rw [Sequence.mem_sortOn, List.mem_flatMap] at crossing
  obtain ⟨i, -, crossing⟩ := crossing
  split at crossing
  · rename_i f entry
    exact ⟨i, f, entry, List.mem_flatMap.1 crossing⟩
  · simp at crossing

end Relief

end RoadNoise
