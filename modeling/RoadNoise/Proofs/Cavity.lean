/-
# RoadNoise.Proofs.Cavity -- one corner more

Between insertions the triangles tile the outermost one and no circle has a known
corner in it.  A new corner keeps it so.  Its cavity is seen from it as a whole: over
a side of the rim there is a triangle whose circle leaves the corner out, and of two
circles through the ends of the side the one that has the corner shows on which side
of it the corner lies (`pos_of_mem_rim`).  The same comparison shows that the circles
of the fan stay empty.  Inside the cavity each side is met once in either direction,
so the rim has the sum of the whole (`sum_rim`).
-/
import RoadNoise.Proofs.Sequence
import RoadNoise.Proofs.Winding

set_option autoImplicit false

namespace RoadNoise.Triangulation

/-! ## Sides met in both directions -/

/-- Where every side comes with its reverse, what changes its sign adds up to nothing. -/
theorem sum_eq_zero_of_swap {f : Side ℝ → ℤ} (alternating : Alternating f) {l : List (Side ℝ)}
    (nodup : l.Nodup) (closed : ∀ s ∈ l, s.swap ∈ l) : (l.map f).sum = 0 := by
  have perm : (l.map Prod.swap).Perm l := by
    refine (List.perm_ext_iff_of_nodup (nodup.map Prod.swap_injective) nodup).2 fun s => ?_
    rw [List.mem_map]
    constructor
    · rintro ⟨e, entry, rfl⟩
      exact closed e entry
    · intro entry
      exact ⟨s.swap, closed s entry, s.swap_swap⟩
  have reversed : ((l.map Prod.swap).map f).sum = -(l.map f).sum := by
    clear perm closed nodup
    induction l with
    | nil => rfl
    | cons s l ih =>
        simp only [List.map_cons, List.sum_cons] at ih ⊢
        rw [ih, alternating s]
        ring
  have same := (perm.map f).sum_eq
  omega

theorem sideKey_eq_iff (s e : Side ℝ) : sideKey s = sideKey e ↔
    s.1.number = e.1.number ∧ s.2.number = e.2.number ∨
      s.1.number = e.2.number ∧ s.2.number = e.1.number := by
  simp only [sideKey, Prod.mk.injEq]
  omega

/-- Corners are known by their numbers. -/
def Numbered (known : List (Corner ℝ)) : Prop :=
  ∀ c ∈ known, ∀ d ∈ known, c.number = d.number → c = d

section Rim

variable {known : List (Corner ℝ)} {cavity : List (Triangle ℝ)}

/-- The sides of a cavity that are not met in the other direction. -/
def OnRim (cavity : List (Triangle ℝ)) (s : Side ℝ) : Prop :=
  s ∈ cavity.flatMap Triangle.sides ∧ s.swap ∉ cavity.flatMap Triangle.sides

theorem ends_of_mem_sides {ts : List (Triangle ℝ)} (corners : ∀ t ∈ ts, ∀ c ∈ t.corners, c ∈ known)
    (turned : ∀ t ∈ ts, 0 < t.area) {s : Side ℝ} (side : s ∈ ts.flatMap Triangle.sides) :
    (s.1 ∈ known ∧ s.2 ∈ known) ∧ s ≠ s.swap := by
  obtain ⟨t, member, side⟩ := List.mem_flatMap.1 side
  obtain ⟨w, -, ⟨first, second⟩, area, -⟩ := Triangle.exists_apex side
  refine ⟨⟨corners t member _ first, corners t member _ second⟩, fun same => ?_⟩
  have solid := turned t member
  rw [← area, (Prod.ext_iff.1 same).1, Prod.fst_swap, doubleArea_same] at solid
  exact lt_irrefl _ solid

open Classical in
theorem countP_sideKey (numbered : Numbered known) {l : List (Side ℝ)}
    (ends : ∀ s ∈ l, (s.1 ∈ known ∧ s.2 ∈ known) ∧ s ≠ s.swap) {s : Side ℝ} (side : s ∈ l) :
    l.countP (fun e => sideKey e == sideKey s) = l.count s + l.count s.swap := by
  obtain ⟨⟨first, second⟩, apart⟩ := ends s side
  -- numbers stand for corners, so a key is shared by a side and its reverse only
  have keys : ∀ e ∈ l, sideKey e = sideKey s ↔ e = s ∨ e = s.swap := by
    intro e entry
    obtain ⟨⟨firstE, secondE⟩, -⟩ := ends e entry
    rw [sideKey_eq_iff]
    constructor
    · rintro (⟨one, two⟩ | ⟨one, two⟩)
      · exact .inl (Prod.ext (numbered _ firstE _ first one) (numbered _ secondE _ second two))
      · exact .inr (Prod.ext (numbered _ firstE _ second one) (numbered _ secondE _ first two))
    · rintro (rfl | rfl)
      · exact .inl ⟨rfl, rfl⟩
      · exact .inr ⟨rfl, rfl⟩
  clear side ends
  induction l with
  | nil => rfl
  | cons e l ih =>
      have here := keys e List.mem_cons_self
      have later := ih fun e entry => keys e (List.mem_cons_of_mem _ entry)
      rw [List.countP_cons, List.count_cons, List.count_cons, later]
      by_cases same : e = s
      · subst same
        simp [apart]
        omega
      · by_cases reversed : e = s.swap
        · subst reversed
          simp [here.2 (.inr rfl), apart.symm]
          omega
        · simp [here, same, reversed]

open Classical in
theorem rim_perm (numbered : Numbered known)
    (ends : ∀ s ∈ cavity.flatMap Triangle.sides, (s.1 ∈ known ∧ s.2 ∈ known) ∧ s ≠ s.swap)
    (nodup : (cavity.flatMap Triangle.sides).Nodup) :
    (rim cavity).Perm ((cavity.flatMap Triangle.sides).filter fun s => OnRim cavity s) := by
  refine (Sequence.sortOn_perm sideOrder _).trans (List.Perm.of_eq ?_)
  refine List.filter_congr fun s side => ?_
  rw [countP_sideKey numbered ends side, List.count_eq_one_of_mem nodup side, Bool.eq_iff_iff]
  simp only [beq_iff_eq, decide_eq_true_eq, OnRim, side, true_and, ← List.count_eq_zero]
  omega

theorem mem_rim (numbered : Numbered known)
    (ends : ∀ s ∈ cavity.flatMap Triangle.sides, (s.1 ∈ known ∧ s.2 ∈ known) ∧ s ≠ s.swap)
    (nodup : (cavity.flatMap Triangle.sides).Nodup) {s : Side ℝ} :
    s ∈ rim cavity ↔ OnRim cavity s := by
  classical
  rw [(rim_perm numbered ends nodup).mem_iff, List.mem_filter]
  simp only [decide_eq_true_eq, and_iff_right_iff_imp]
  exact fun onRim => onRim.1

theorem sum_rim {f : Side ℝ → ℤ} (alternating : Alternating f) (numbered : Numbered known)
    (ends : ∀ s ∈ cavity.flatMap Triangle.sides, (s.1 ∈ known ∧ s.2 ∈ known) ∧ s ≠ s.swap)
    (nodup : (cavity.flatMap Triangle.sides).Nodup) :
    ((rim cavity).map f).sum = around f cavity := by
  classical
  have paired :
      (((cavity.flatMap Triangle.sides).filter fun s => ¬OnRim cavity s).map f).sum = 0 := by
    refine sum_eq_zero_of_swap alternating (nodup.filter _) fun s entry => ?_
    simp only [List.mem_filter, OnRim, not_and, not_not, decide_eq_true_eq] at entry ⊢
    exact ⟨entry.2 entry.1, fun _ => by simpa using entry.1⟩
  simp only [decide_not] at paired
  have split := ((List.filter_append_perm (fun s => decide (OnRim cavity s))
    (cavity.flatMap Triangle.sides)).map f).sum_eq
  rw [List.map_append, List.sum_append, paired, add_zero] at split
  rw [((rim_perm numbered ends nodup).map f).sum_eq, split]
  rfl

end Rim

/-! ## Cavities and fans -/

/-- The triangles whose circle has the new corner. -/
noncomputable def cavity (ts : List (Triangle ℝ)) (p : Corner ℝ) : List (Triangle ℝ) :=
  ts.filter fun t => t.circle.holds p.point

theorem insertCorner_eq (ts : List (Triangle ℝ)) (p : Corner ℝ) : insertCorner ts p =
    if (cavity ts p).isEmpty then ts
    else (ts.filter fun t => !t.circle.holds p.point)
      ++ (rim (cavity ts p)).filterMap (fan? p) := by
  simp only [insertCorner, List.partition_eq_filter_filter, cavity]
  rfl

theorem sides_cavity_sublist (ts : List (Triangle ℝ)) (p : Corner ℝ) :
    ((cavity ts p).flatMap Triangle.sides).Sublist (ts.flatMap Triangle.sides) :=
  List.filter_sublist.flatMap _

section Fans

variable {p : Corner ℝ} {f : Side ℝ → ℤ}

/-- What a new triangle over a side adds up to, for the side. -/
def fanSum (f : Side ℝ → ℤ) (p : Corner ℝ) (s : Side ℝ) : ℤ := f s + f (s.2, p) + f (p, s.1)

theorem around_filterMap_fan? {l : List (Side ℝ)}
    (made : ∀ s ∈ l, ∃ o, fan? p s = some ⟨s.1, s.2, p, o⟩) :
    around f (l.filterMap (fan? p)) = (l.map (fanSum f p)).sum := by
  induction l with
  | nil => rfl
  | cons s l ih =>
      obtain ⟨first, later⟩ := List.forall_mem_cons.1 made
      obtain ⟨o, made⟩ := first
      rw [List.filterMap_cons_some made, around_cons, ih later, List.map_cons, List.sum_cons]
      rfl

theorem alternating_fanSum (alternating : Alternating f) (p : Corner ℝ) :
    Alternating (fanSum f p) := by
  intro s
  have whole := alternating s
  have first := alternating (p, s.1)
  have second := alternating (s.2, p)
  simp only [fanSum, Prod.swap] at *
  omega

/-- The ways to the new corner and back cancel around each triangle. -/
theorem around_fanSum (alternating : Alternating f) (p : Corner ℝ)
    (us : List (Triangle ℝ)) : around (fanSum f p) us = around f us := by
  induction us with
  | nil => rfl
  | cons t us ih =>
      have first := alternating (p, t.a)
      have second := alternating (p, t.b)
      have third := alternating (p, t.c)
      rw [around_cons, around_cons, ih]
      simp only [fanSum, Prod.swap] at *
      omega

end Fans

/-! ## Triangles with empty circles -/

/-- The triangles tile the large one, their corners are known and their circles have no
known corner in them. -/
structure Tessellates (whole : Triangle ℝ) (known : List (Corner ℝ)) (ts : List (Triangle ℝ)) : Prop
    extends Tiles whole ts where
  corners : ∀ t ∈ ts, ∀ c ∈ t.corners, c ∈ known
  circles : ∀ t ∈ ts, circle? t.a.point t.b.point t.c.point = some t.circle
  empty : ∀ t ∈ ts, ∀ v ∈ known, 0 ≤ t.circle.power v.point

/-- What is asked of a corner that comes and of those that are known. -/
structure Admits (whole : Triangle ℝ) (known : List (Corner ℝ)) (p : Corner ℝ) : Prop where
  numbered : Numbered known
  turned : 0 < whole.area
  framed : ∀ v ∈ known, ∀ s ∈ whole.sides, 0 ≤ doubleArea s.1.point s.2.point v.point
  within : whole.Within p.point
  /-- No triangle over two known corners is too flat to have a circle. -/
  solid : ∀ a ∈ known, ∀ b ∈ known, 0 < doubleArea a.point b.point p.point →
    Scalar.eps < doubleArea a.point b.point p.point
  /-- The tolerance of the circles takes nothing in. -/
  sharp : ∀ a ∈ known, ∀ b ∈ known, ∀ c ∈ known, ∀ o,
    circle? a.point b.point c.point = some o → o.holds p.point = true → o.power p.point ≤ 0

theorem Admits.mono {whole : Triangle ℝ} {known all : List (Corner ℝ)} {p : Corner ℝ}
    (admits : Admits whole all p) (old : known ⊆ all) : Admits whole known p where
  numbered := fun c first d second => admits.numbered c (old first) d (old second)
  turned := admits.turned
  framed := fun v member => admits.framed v (old member)
  within := admits.within
  solid := fun a first b second => admits.solid a (old first) b (old second)
  sharp := fun a first b second c third =>
    admits.sharp a (old first) b (old second) c (old third)

namespace Tessellates

variable {whole : Triangle ℝ} {known : List (Corner ℝ)} {ts : List (Triangle ℝ)} {p : Corner ℝ}

theorem power_corner (tess : Tessellates whole known ts) {t : Triangle ℝ} (member : t ∈ ts) :
    ∀ c ∈ t.corners, t.circle.power c.point = 0 :=
  Triangle.forall_corners.2 (power_corners (tess.circles t member))

theorem ends (tess : Tessellates whole known ts) {s : Side ℝ}
    (side : s ∈ ts.flatMap Triangle.sides) : (s.1 ∈ known ∧ s.2 ∈ known) ∧ s ≠ s.swap :=
  ends_of_mem_sides tess.corners tess.turned side

/-- Two triangles over a side tell with their circles on which side of it a point lies. -/
theorem compare (tess : Tessellates whole known ts) {t : Triangle ℝ} (member : t ∈ ts)
    {s : Side ℝ} (side : s ∈ t.sides) {o : Circle ℝ} (first : o.power s.1.point = 0)
    (second : o.power s.2.point = 0) (v w : Point ℝ) :
    (o.power v - t.circle.power v) * doubleArea s.1.point s.2.point w
      = (o.power w - t.circle.power w) * doubleArea s.1.point s.2.point v := by
  obtain ⟨-, -, ⟨start, stop⟩, -⟩ := Triangle.exists_apex side
  exact Circle.power_pencil ((tess.power_corner member _ start).trans first.symm)
    ((tess.power_corner member _ stop).trans second.symm) v w

theorem nodup_cavity (tess : Tessellates whole known ts) (turned : 0 < whole.area)
    (p : Corner ℝ) : ((cavity ts p).flatMap Triangle.sides).Nodup :=
  (tess.nodup turned).sublist (sides_cavity_sublist ts p)

theorem ends_cavity (tess : Tessellates whole known ts) (p : Corner ℝ) :
    ∀ s ∈ (cavity ts p).flatMap Triangle.sides, (s.1 ∈ known ∧ s.2 ∈ known) ∧ s ≠ s.swap :=
  fun _ side => tess.ends ((sides_cavity_sublist ts p).subset side)

theorem power_of_holds (tess : Tessellates whole known ts) (admits : Admits whole known p)
    {t : Triangle ℝ} (member : t ∈ ts) (reached : t.circle.holds p.point = true) :
    t.circle.power p.point ≤ 0 := by
  obtain ⟨first, second, third⟩ := Triangle.forall_corners.1 (tess.corners t member)
  exact admits.sharp t.a first t.b second t.c third _ (tess.circles t member) reached

/-- A side of the rim with the circles on its two sides. -/
theorem exists_of_mem_rim (tess : Tessellates whole known ts) (admits : Admits whole known p)
    {s : Side ℝ} (onRim : s ∈ rim (cavity ts p)) :
    ∃ t ∈ ts, t.circle.power p.point ≤ 0 ∧ s ∈ t.sides ∧
      (s ∈ whole.sides ∨ ∃ u ∈ ts, 0 < u.circle.power p.point ∧ s.swap ∈ u.sides) := by
  obtain ⟨side, single⟩ := (mem_rim admits.numbered (tess.ends_cavity p)
    (tess.nodup_cavity admits.turned p)).1 onRim
  obtain ⟨t, reached, sideT⟩ := List.mem_flatMap.1 side
  obtain ⟨member, reached⟩ := List.mem_filter.1 reached
  refine ⟨t, member, tess.power_of_holds admits member reached, sideT, ?_⟩
  by_cases outer : s ∈ whole.sides
  · exact .inl outer
  · right
    have reverse := tess.mem_swap ((sides_cavity_sublist ts p).subset side) outer
    obtain ⟨u, beyond, sideU⟩ := List.mem_flatMap.1 reverse
    refine ⟨u, beyond, power_pos_of_not_holds (tess.circles u beyond) fun taken => ?_, sideU⟩
    exact single (List.mem_flatMap.2 ⟨u, List.mem_filter.2 ⟨beyond, taken⟩, sideU⟩)

/-- The new corner sees every side of the rim from the left. -/
theorem pos_of_mem_rim (tess : Tessellates whole known ts) (admits : Admits whole known p)
    {s : Side ℝ} (onRim : s ∈ rim (cavity ts p)) :
    0 < doubleArea s.1.point s.2.point p.point := by
  obtain ⟨t, member, reached, side, outer | ⟨u, beyond, missed, reverse⟩⟩ :=
    tess.exists_of_mem_rim admits onRim
  · obtain ⟨w, -, -, -, within⟩ := Triangle.exists_apex outer
    exact ((within p.point).1 admits.within).1
  · -- from `t` to its neighbour the power grows towards the third corner of `t`, and it
    -- grows towards the new corner as well
    obtain ⟨w, apex, -, area, -⟩ := Triangle.exists_apex side
    obtain ⟨-, -, ⟨stop, start⟩, -⟩ := Triangle.exists_apex reverse
    have pencil := tess.compare member side (tess.power_corner beyond _ start)
      (tess.power_corner beyond _ stop) p.point w.point
    rw [tess.power_corner member w apex, area, sub_zero] at pencil
    have weighed : 0 < (u.circle.power p.point - t.circle.power p.point) * t.area :=
      mul_pos (by linarith) (tess.turned t member)
    rw [pencil] at weighed
    exact pos_of_mul_pos_right weighed (tess.empty u beyond w (tess.corners t member w apex))

/-- The circle of a new triangle has no known corner in it. -/
theorem empty_of_mem_rim (tess : Tessellates whole known ts) (admits : Admits whole known p)
    {s : Side ℝ} (onRim : s ∈ rim (cavity ts p)) {o : Circle ℝ}
    (through : circle? s.1.point s.2.point p.point = some o) {v : Corner ℝ} (old : v ∈ known) :
    0 ≤ o.power v.point := by
  have seen := tess.pos_of_mem_rim admits onRim
  obtain ⟨first, second, tip⟩ := power_corners through
  obtain ⟨t, member, reached, side, neighbour⟩ := tess.exists_of_mem_rim admits onRim
  -- left of the side the circle of `t` is the measure, right of it that of the neighbour
  by_cases left : 0 ≤ doubleArea s.1.point s.2.point v.point
  · have pencil := tess.compare member side first second v.point p.point
    rw [tip, zero_sub] at pencil
    have weighed := mul_nonneg (neg_nonneg.2 reached) left
    rw [← pencil] at weighed
    linarith [nonneg_of_mul_nonneg_left weighed seen, tess.empty t member v old]
  · rcases neighbour with outer | ⟨u, beyond, missed, reverse⟩
    · exact absurd (admits.framed v old s outer) left
    · have pencil := tess.compare beyond reverse second first v.point p.point
      rw [tip, zero_sub, Prod.fst_swap, Prod.snd_swap, doubleArea_swap s.1.point s.2.point p.point,
        doubleArea_swap s.1.point s.2.point v.point] at pencil
      have weighed := mul_pos missed (neg_pos.2 (not_le.1 left))
      have gained : 0 < (o.power v.point - u.circle.power v.point)
          * doubleArea s.1.point s.2.point p.point := by
        linarith
      linarith [pos_of_mul_pos_left gained seen.le, tess.empty u beyond v old]

/-- Over each side of the rim there is a new triangle. -/
theorem exists_fan? (tess : Tessellates whole known ts) (admits : Admits whole known p)
    {s : Side ℝ} (onRim : s ∈ rim (cavity ts p)) :
    ∃ o, circle? s.1.point s.2.point p.point = some o ∧ fan? p s = some ⟨s.1, s.2, p, o⟩ := by
  have seen := tess.pos_of_mem_rim admits onRim
  obtain ⟨t, member, -, side, -⟩ := tess.exists_of_mem_rim admits onRim
  obtain ⟨⟨first, second⟩, -⟩ := tess.ends (List.mem_flatMap.2 ⟨t, member, side⟩)
  have solid := admits.solid s.1 first s.2 second seen
  obtain ⟨o, through⟩ := exists_circle? (solid.trans_le (le_abs_self _))
  refine ⟨o, through, ?_⟩
  rw [fan?, if_pos seen, Triangle.of?, through]
  rfl

theorem balanced_insert (tess : Tessellates whole known ts) (admits : Admits whole known p)
    {f : Side ℝ → ℤ} (alternating : Alternating f) :
    around f ((ts.filter fun t => !t.circle.holds p.point)
      ++ (rim (cavity ts p)).filterMap (fan? p)) = around f [whole] := by
  have made : ∀ s ∈ rim (cavity ts p), ∃ o, fan? p s = some ⟨s.1, s.2, p, o⟩ := by
    intro s onRim
    obtain ⟨o, -, fan⟩ := tess.exists_fan? admits onRim
    exact ⟨o, fan⟩
  have filled : around f ((rim (cavity ts p)).filterMap (fan? p)) = around f (cavity ts p) := by
    rw [around_filterMap_fan? made, sum_rim (alternating_fanSum alternating p) admits.numbered
      (tess.ends_cavity p) (tess.nodup_cavity admits.turned p), around_fanSum alternating p]
  have parted := around_perm f (List.filter_append_perm (fun t => t.circle.holds p.point) ts)
  rw [around_append] at parted ⊢
  rw [← tess.balanced f alternating, ← parted, filled, add_comm]
  rfl

/-- What is asked of each triangle. -/
def Fits (known : List (Corner ℝ)) (t : Triangle ℝ) : Prop :=
  0 < t.area ∧ (∀ c ∈ t.corners, c ∈ known) ∧
    circle? t.a.point t.b.point t.c.point = some t.circle ∧ ∀ v ∈ known, 0 ≤ t.circle.power v.point

theorem fits_of_missed (tess : Tessellates whole known ts) {t : Triangle ℝ} (member : t ∈ ts)
    (missed : ¬t.circle.holds p.point = true) : Fits (p :: known) t := by
  have out := (power_pos_of_not_holds (tess.circles t member) missed).le
  refine ⟨tess.turned t member, fun c corner => ?_, tess.circles t member,
    List.forall_mem_cons.2 ⟨out, tess.empty t member⟩⟩
  exact List.mem_cons_of_mem _ (tess.corners t member c corner)

theorem fits_of_fan (tess : Tessellates whole known ts) (admits : Admits whole known p)
    {t : Triangle ℝ} (fan : t ∈ (rim (cavity ts p)).filterMap (fan? p)) : Fits (p :: known) t := by
  obtain ⟨s, onRim, fan⟩ := List.mem_filterMap.1 fan
  obtain ⟨o, through, made⟩ := tess.exists_fan? admits onRim
  obtain rfl := Option.some.inj (made.symm.trans fan)
  obtain ⟨u, member, -, side, -⟩ := tess.exists_of_mem_rim admits onRim
  obtain ⟨⟨first, second⟩, -⟩ := tess.ends (List.mem_flatMap.2 ⟨u, member, side⟩)
  refine ⟨tess.pos_of_mem_rim admits onRim, ?_, through, ?_⟩
  · exact Triangle.forall_corners.2
      ⟨List.mem_cons_of_mem _ first, List.mem_cons_of_mem _ second, List.mem_cons_self⟩
  · refine List.forall_mem_cons.2 ⟨(power_corners through).2.2.ge, ?_⟩
    exact fun v old => tess.empty_of_mem_rim admits onRim through old

/-- An insertion leaves triangles with empty circles. -/
theorem insert (tess : Tessellates whole known ts) (admits : Admits whole known p) :
    Tessellates whole (p :: known) (insertCorner ts p) := by
  have step : (∀ t ∈ insertCorner ts p, Fits (p :: known) t) ∧
      ∀ f, Alternating f → around f (insertCorner ts p) = around f [whole] := by
    rw [insertCorner_eq]
    split_ifs with untouched
    · refine ⟨fun t member => tess.fits_of_missed member ?_, tess.balanced⟩
      exact List.filter_eq_nil_iff.1 (List.isEmpty_iff.1 untouched) t member
    · refine ⟨fun t member => ?_, fun f => tess.balanced_insert admits⟩
      rcases List.mem_append.1 member with old | fan
      · obtain ⟨member, missed⟩ := List.mem_filter.1 old
        exact tess.fits_of_missed member (by simpa using missed)
      · exact tess.fits_of_fan admits fan
  obtain ⟨fits, balanced⟩ := step
  exact ⟨⟨fun t member => (fits t member).1, balanced⟩, fun t member => (fits t member).2.1,
    fun t member => (fits t member).2.2.1, fun t member => (fits t member).2.2.2⟩

theorem foldl {ps all : List (Corner ℝ)} (tess : Tessellates whole known ts)
    (admits : ∀ p ∈ ps, Admits whole all p) (old : known ⊆ all) (new : ps ⊆ all) :
    Tessellates whole (ps.reverse ++ known) (ps.foldl insertCorner ts) := by
  induction ps generalizing known ts with
  | nil => exact tess
  | cons p ps ih =>
      obtain ⟨first, later⟩ := List.forall_mem_cons.1 admits
      obtain ⟨here, there⟩ := List.cons_subset.1 new
      have next := ih (tess.insert (first.mono old)) later (List.cons_subset.2 ⟨here, old⟩) there
      simpa using next

theorem start {whole : Triangle ℝ} (turned : 0 < whole.area)
    (through : circle? whole.a.point whole.b.point whole.c.point = some whole.circle) :
    Tessellates whole whole.corners [whole] := by
  have corners := power_corners through
  refine ⟨⟨by simpa using turned, fun f _ => rfl⟩, by simp, by simpa using through, ?_⟩
  simp [Triangle.corners, corners]

end Tessellates

end RoadNoise.Triangulation
