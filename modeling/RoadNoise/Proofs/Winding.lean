/-
# RoadNoise.Proofs.Winding -- how often triangles go around a place

A ray to the east of a place is crossed by the sides of a counter-clockwise triangle
once in all if the triangle has the place in it and not at all otherwise.  Crossings
change their sign with the direction of a side, so where the sides of triangles add
up to those of one large triangle, whatever changes its sign with the direction, each
place of the large triangle lies in exactly one of them.
-/
import RoadNoise.Proofs.Circles

set_option autoImplicit false

namespace RoadNoise.Triangulation

/-! ## Crossings of a ray -/

section Crossings

variable {a b c x : Point ℝ}

/-- One for a side that rises past the ray from `x` to the east, less one for a side
that falls. -/
noncomputable def crossing (x a b : Point ℝ) : ℤ :=
  if a.y ≤ x.y ∧ x.y < b.y then if 0 < doubleArea a b x then 1 else 0
  else if b.y ≤ x.y ∧ x.y < a.y then if doubleArea a b x < 0 then -1 else 0
  else 0

theorem crossing_swap (x a b : Point ℝ) : crossing x b a = -crossing x a b := by
  have area := doubleArea_swap a b x
  simp only [crossing, area, neg_pos, neg_lt_zero]
  by_cases up : a.y ≤ x.y ∧ x.y < b.y
  · have notDown : ¬(b.y ≤ x.y ∧ x.y < a.y) := fun down => by linarith [up.1, down.2]
    simp only [up, notDown, and_self, if_true, if_false]
    split_ifs <;> rfl
  · simp only [up, if_false]
    split_ifs <;> rfl

theorem crossing_up (low : a.y ≤ x.y) (high : x.y < b.y) :
    crossing x a b = if 0 < doubleArea a b x then 1 else 0 := by
  simp [crossing, low, high]

theorem crossing_down (high : x.y < a.y) (low : b.y ≤ x.y) :
    crossing x a b = if doubleArea a b x < 0 then -1 else 0 := by
  simp [crossing, low, high, not_le.2 high]

theorem crossing_level (level : a.y ≤ x.y ↔ b.y ≤ x.y) : crossing x a b = 0 := by
  unfold crossing
  rw [if_neg (fun up => absurd (level.1 up.1) (not_le.2 up.2)),
    if_neg (fun down => absurd (level.2 down.1) (not_le.2 down.2))]

/-- The heights of the corners over a place, weighted by the triangles opposite. -/
theorem heights_balance (a b c x : Point ℝ) :
    doubleArea b c x * (a.y - x.y) + doubleArea c a x * (b.y - x.y)
      + doubleArea a b x * (c.y - x.y) = 0 := by
  simp only [doubleArea]
  ring

/-- How often a triangle goes around `x`. -/
noncomputable def winding (x a b c : Point ℝ) : ℤ :=
  crossing x a b + crossing x b c + crossing x c a

theorem winding_rotate (x a b c : Point ℝ) : winding x b c a = winding x a b c := by
  unfold winding
  ring

/-- The place lies in the triangle or on its sides. -/
def Spans (a b c x : Point ℝ) : Prop :=
  0 ≤ doubleArea a b x ∧ 0 ≤ doubleArea b c x ∧ 0 ≤ doubleArea c a x

/-- The place lies in the triangle, off its sides. -/
def Within (a b c x : Point ℝ) : Prop :=
  0 < doubleArea a b x ∧ 0 < doubleArea b c x ∧ 0 < doubleArea c a x

/-- Going around once and having the place are told by each other, up to the sides. -/
def Told (a b c x : Point ℝ) : Prop :=
  winding x a b c = 1 ∧ Spans a b c x ∨ winding x a b c = 0 ∧ ¬Within a b c x

theorem Told.rotate (told : Told b c a x) : Told a b c x := by
  unfold Told Spans Within at *
  rw [winding_rotate] at told
  tauto

theorem told_of_lone_low (ccw : 0 < doubleArea a b c) (low : a.y ≤ x.y) (highB : x.y < b.y)
    (highC : x.y < c.y) : Told a b c x := by
  have level := heights_balance a b c x
  have whole := doubleArea_sum a b c x
  have winds : winding x a b c = (if 0 < doubleArea a b x then 1 else 0)
      + (if doubleArea c a x < 0 then -1 else 0) := by
    rw [winding, crossing_up low highB, crossing_down highC low, crossing_level
      (iff_of_false (not_le.2 highB) (not_le.2 highC)), add_zero]
  by_cases right : 0 < doubleArea a b x
  · by_cases left : doubleArea c a x < 0
    · refine .inr ⟨by simp [winds, right, left], fun within => ?_⟩
      linarith [within.2.2]
    · refine .inl ⟨by simp [winds, right, left], right.le, ?_, not_lt.1 left⟩
      by_contra opposite
      nlinarith [mul_pos right (sub_pos.2 highC), mul_nonneg (not_lt.1 left) (sub_pos.2 highB).le]
  · by_cases left : doubleArea c a x < 0
    · exfalso
      nlinarith [mul_neg_of_neg_of_pos left (sub_pos.2 highB),
        mul_nonneg (sub_nonneg.2 (not_lt.1 right)) (sub_pos.2 highC).le]
    · exact .inr ⟨by simp [winds, right, left], fun within => right within.1⟩

theorem told_of_lone_high (ccw : 0 < doubleArea a b c) (lowA : a.y ≤ x.y) (lowB : b.y ≤ x.y)
    (high : x.y < c.y) : Told a b c x := by
  have level := heights_balance a b c x
  have whole := doubleArea_sum a b c x
  have winds : winding x a b c = (if 0 < doubleArea b c x then 1 else 0)
      + (if doubleArea c a x < 0 then -1 else 0) := by
    rw [winding, crossing_level (iff_of_true lowA lowB), crossing_up lowB high,
      crossing_down high lowA, zero_add]
  by_cases right : 0 < doubleArea b c x
  · by_cases left : doubleArea c a x < 0
    · refine .inr ⟨by simp [winds, right, left], fun within => ?_⟩
      linarith [within.2.2]
    · refine .inl ⟨by simp [winds, right, left], ?_, right.le, not_lt.1 left⟩
      by_contra opposite
      nlinarith [mul_neg_of_neg_of_pos (not_le.1 opposite) (sub_pos.2 high),
        mul_nonneg right.le (sub_nonneg.2 lowA), mul_nonneg (not_lt.1 left) (sub_nonneg.2 lowB)]
  · by_cases left : doubleArea c a x < 0
    · exfalso
      nlinarith [mul_nonneg (neg_nonneg.2 (not_lt.1 right)) (sub_nonneg.2 lowA),
        mul_nonneg (neg_pos.2 left).le (sub_nonneg.2 lowB)]
    · exact .inr ⟨by simp [winds, right, left], fun within => right within.2.1⟩

theorem told_of_level (first : a.y ≤ x.y ↔ b.y ≤ x.y)
    (second : b.y ≤ x.y ↔ c.y ≤ x.y) : Told a b c x := by
  have level := heights_balance a b c x
  refine .inr ⟨?_, ?_⟩
  · rw [winding, crossing_level first, crossing_level second,
      crossing_level (first.trans second).symm]
    rfl
  · rintro ⟨right, opposite, left⟩
    by_cases low : a.y ≤ x.y
    · have lowB := first.1 low
      have lowC := second.1 lowB
      have highA : x.y ≤ a.y := by
        by_contra below
        nlinarith [mul_pos opposite (sub_pos.2 (not_le.1 below)),
          mul_nonneg left.le (sub_nonneg.2 lowB), mul_nonneg right.le (sub_nonneg.2 lowC)]
      have highB : x.y ≤ b.y := by
        by_contra below
        nlinarith [mul_pos left (sub_pos.2 (not_le.1 below)),
          mul_nonneg opposite.le (sub_nonneg.2 low), mul_nonneg right.le (sub_nonneg.2 lowC)]
      -- a level side has no triangle over a place on it
      simp only [doubleArea, le_antisymm low highA, le_antisymm lowB highB] at right
      linarith
    · have highB := not_le.1 (mt first.2 low)
      have highC := not_le.1 (fun lowC => low (first.2 (second.2 lowC)))
      have highA := not_le.1 low
      nlinarith [mul_pos opposite (sub_pos.2 highA), mul_pos left (sub_pos.2 highB),
        mul_pos right (sub_pos.2 highC)]

theorem told (ccw : 0 < doubleArea a b c) (x : Point ℝ) : Told a b c x := by
  have ccw' : 0 < doubleArea b c a := by rwa [doubleArea_rotate]
  have ccw'' : 0 < doubleArea c a b := by rwa [doubleArea_rotate]
  by_cases lowA : a.y ≤ x.y <;> by_cases lowB : b.y ≤ x.y <;> by_cases lowC : c.y ≤ x.y
  · exact told_of_level (iff_of_true lowA lowB) (iff_of_true lowB lowC)
  · exact told_of_lone_high ccw lowA lowB (not_le.1 lowC)
  · exact (told_of_lone_high ccw'' lowC lowA (not_le.1 lowB)).rotate.rotate
  · exact told_of_lone_low ccw lowA (not_le.1 lowB) (not_le.1 lowC)
  · exact (told_of_lone_high ccw' lowB lowC (not_le.1 lowA)).rotate
  · exact (told_of_lone_low ccw' lowB (not_le.1 lowC) (not_le.1 lowA)).rotate
  · exact (told_of_lone_low ccw'' lowC (not_le.1 lowA) (not_le.1 lowB)).rotate.rotate
  · exact told_of_level (iff_of_false lowA lowB) (iff_of_false lowB lowC)

end Crossings

/-! ## Triangles and their sides -/

namespace Triangle

def corners (t : Triangle ℝ) : List (Corner ℝ) := [t.a, t.b, t.c]

@[simp] theorem mem_corners {t : Triangle ℝ} {c : Corner ℝ} :
    c ∈ t.corners ↔ c = t.a ∨ c = t.b ∨ c = t.c := by
  simp [corners]

theorem forall_corners {t : Triangle ℝ} {P : Corner ℝ → Prop} :
    (∀ c ∈ t.corners, P c) ↔ P t.a ∧ P t.b ∧ P t.c := by
  simp [corners]

noncomputable def area (t : Triangle ℝ) : ℝ := doubleArea t.a.point t.b.point t.c.point

def Spans (t : Triangle ℝ) : Point ℝ → Prop :=
  Triangulation.Spans t.a.point t.b.point t.c.point

def Within (t : Triangle ℝ) : Point ℝ → Prop :=
  Triangulation.Within t.a.point t.b.point t.c.point

/-- A side with the corner across it. -/
theorem exists_apex {t : Triangle ℝ} {s : Side ℝ} (side : s ∈ t.sides) :
    ∃ w ∈ t.corners, (s.1 ∈ t.corners ∧ s.2 ∈ t.corners) ∧
      doubleArea s.1.point s.2.point w.point = t.area ∧
      ∀ x, t.Within x ↔ Triangulation.Within s.1.point s.2.point w.point x := by
  have rotate := doubleArea_rotate t.a.point t.b.point t.c.point
  have rotate' := doubleArea_rotate t.b.point t.c.point t.a.point
  simp only [sides, List.mem_cons, List.not_mem_nil, or_false] at side
  simp only [mem_corners, area, Within, Triangulation.Within]
  rcases side with rfl | rfl | rfl
  · exact ⟨t.c, by simp, by simp, rfl, fun x => Iff.rfl⟩
  · exact ⟨t.a, by simp, by simp, rotate, fun x => by tauto⟩
  · exact ⟨t.b, by simp, by simp, rotate'.trans rotate, fun x => by tauto⟩

theorem nodup_sides {t : Triangle ℝ} (turned : 0 < t.area) : t.sides.Nodup := by
  have apart : t.a ≠ t.b ∧ t.b ≠ t.c ∧ t.c ≠ t.a := by
    refine ⟨?_, ?_, ?_⟩ <;> intro same <;> simp [area, same] at turned
  simp [sides, apart, apart.1.symm, apart.2.2.symm]

end Triangle

/-! ## Sums around triangles -/

/-- A quantity that changes its sign with the direction of a side. -/
def Alternating (f : Side ℝ → ℤ) : Prop := ∀ s, f s.swap = -f s

def around (f : Side ℝ → ℤ) (ts : List (Triangle ℝ)) : ℤ :=
  ((ts.flatMap Triangle.sides).map f).sum

section Sums

variable (f : Side ℝ → ℤ)

@[simp] theorem around_cons (t : Triangle ℝ) (ts : List (Triangle ℝ)) :
    around f (t :: ts) = f (t.a, t.b) + f (t.b, t.c) + f (t.c, t.a) + around f ts := by
  simp only [around, Triangle.sides, List.flatMap_cons, List.map_append, List.sum_append,
    List.map_cons, List.map_nil, List.sum_cons, List.sum_nil]
  ring

@[simp] theorem around_append (ts us : List (Triangle ℝ)) :
    around f (ts ++ us) = around f ts + around f us := by
  simp [around]

end Sums

theorem around_perm (f : Side ℝ → ℤ) {ts us : List (Triangle ℝ)} (perm : ts.Perm us) :
    around f ts = around f us :=
  ((perm.flatMap_right Triangle.sides).map f).sum_eq

/-- The triangles turn counter-clockwise and their sides add up to those of `whole`. -/
structure Tiles (whole : Triangle ℝ) (ts : List (Triangle ℝ)) : Prop where
  turned : ∀ t ∈ ts, 0 < t.area
  balanced : ∀ f, Alternating f → around f ts = around f [whole]

noncomputable def crossings (x : Point ℝ) (s : Side ℝ) : ℤ := crossing x s.1.point s.2.point

theorem alternating_crossings (x : Point ℝ) : Alternating (crossings x) :=
  fun s => crossing_swap x s.1.point s.2.point

noncomputable def Triangle.winding (t : Triangle ℝ) (x : Point ℝ) : ℤ :=
  Triangulation.winding x t.a.point t.b.point t.c.point

theorem Triangle.told {t : Triangle ℝ} (turned : 0 < t.area) (x : Point ℝ) :
    t.winding x = 1 ∧ t.Spans x ∨ t.winding x = 0 ∧ ¬t.Within x :=
  Triangulation.told turned x

theorem around_crossings (x : Point ℝ) (ts : List (Triangle ℝ)) :
    around (crossings x) ts = (ts.map fun t => t.winding x).sum := by
  induction ts with
  | nil => rfl
  | cons t ts ih => rw [around_cons, ih, List.map_cons, List.sum_cons]; rfl

/-- Of numbers that add up to one at most, no two are one. -/
theorem pairwise_of_sum_le_one {β : Type} {g : β → ℤ} {l : List β} (nonneg : ∀ b ∈ l, 0 ≤ g b)
    (few : (l.map g).sum ≤ 1) : l.Pairwise fun a b => ¬(g a = 1 ∧ g b = 1) := by
  induction l with
  | nil => exact List.Pairwise.nil
  | cons a l ih =>
      obtain ⟨first, later⟩ := List.forall_mem_cons.1 nonneg
      rw [List.map_cons, List.sum_cons] at few
      refine List.pairwise_cons.2 ⟨?_, ih later (by linarith)⟩
      rintro b entry ⟨one, another⟩
      have part : g b ≤ (l.map g).sum := by
        refine List.single_le_sum ?_ _ (List.mem_map_of_mem entry)
        simpa using later
      omega

/-- Two triangles over one side have places in common. -/
theorem exists_within_both {a b v w : Point ℝ} (left : 0 < doubleArea a b v)
    (right : 0 < doubleArea a b w) : ∃ x, Within a b v x ∧ Within a b w x := by
  -- a place near the middle of the side, on the way to `v`
  set spread := 2 * (doubleArea a b w + |doubleArea b w v| + |doubleArea w a v|) with spread_eq
  have wide : 0 < spread := by positivity
  set u := doubleArea a b w / spread with u_eq
  have scaled : u * spread = doubleArea a b w := by
    rw [u_eq]
    field_simp
  have positive : 0 < u := by positivity
  have small : u < 1 := by
    rw [u_eq, div_lt_one wide]
    linarith [abs_nonneg (doubleArea b w v), abs_nonneg (doubleArea w a v)]
  have near : ∀ k, |k| ≤ |doubleArea b w v| + |doubleArea w a v| →
      0 < (1 - u) / 2 * doubleArea a b w + u * k := by
    intro k bounded
    nlinarith [neg_abs_le k, mul_pos positive right]
  let x : Point ℝ :=
    ⟨(1 - u) * ((a.x + b.x) / 2) + u * v.x, (1 - u) * ((a.y + b.y) / 2) + u * v.y, 0⟩
  have affine : ∀ p q, doubleArea p q x
      = (1 - u) * ((doubleArea p q a + doubleArea p q b) / 2) + u * doubleArea p q v := by
    intro p q
    simp only [doubleArea, x]
    ring
  have turn : ∀ w, doubleArea b w a = doubleArea a b w ∧ doubleArea w a b = doubleArea a b w :=
    fun w => ⟨doubleArea_rotate a b w, (doubleArea_rotate w a b).symm⟩
  have above : 0 < doubleArea a b x := by
    rw [affine, doubleArea_left, doubleArea_right]
    linarith [mul_pos positive left]
  refine ⟨x, ⟨above, ?_, ?_⟩, above, ?_, ?_⟩
  · rw [affine, doubleArea_left, doubleArea_right, (turn v).1]
    linarith [mul_pos (sub_pos.2 small) left]
  · rw [affine, doubleArea_left, doubleArea_right, (turn v).2]
    linarith [mul_pos (sub_pos.2 small) left]
  · rw [affine, doubleArea_left, (turn w).1]
    linarith [near (doubleArea b w v) (by linarith [abs_nonneg (doubleArea w a v)])]
  · rw [affine, doubleArea_right, (turn w).2]
    linarith [near (doubleArea w a v) (by linarith [abs_nonneg (doubleArea b w v)])]

namespace Tiles

variable {whole : Triangle ℝ} {ts : List (Triangle ℝ)}

theorem sum_winding (tiled : Tiles whole ts) (x : Point ℝ) :
    (ts.map fun t => t.winding x).sum = whole.winding x := by
  rw [← around_crossings, tiled.balanced _ (alternating_crossings x), around_crossings]
  simp

/-- Nothing in the large triangle is left out. -/
theorem exists_spans (tiled : Tiles whole ts) (turned : 0 < whole.area) {x : Point ℝ}
    (within : whole.Within x) : ∃ t ∈ ts, t.Spans x := by
  by_contra none
  have zero : ∀ n ∈ ts.map fun t => t.winding x, n = 0 := by
    intro n entry
    obtain ⟨t, member, rfl⟩ := List.mem_map.1 entry
    rcases t.told (tiled.turned t member) x with ⟨-, spans⟩ | ⟨winds, -⟩
    · exact absurd ⟨t, member, spans⟩ none
    · exact winds
  have total := tiled.sum_winding x
  rw [List.sum_eq_zero zero] at total
  rcases whole.told turned x with ⟨winds, -⟩ | ⟨-, out⟩
  · omega
  · exact out within

/-- Nothing lies in two triangles. -/
theorem pairwise (tiled : Tiles whole ts) (turned : 0 < whole.area) (x : Point ℝ) :
    ts.Pairwise fun t u => ¬(t.Within x ∧ u.Within x) := by
  have unit : ∀ t ∈ ts, 0 ≤ t.winding x ∧ (t.Within x → t.winding x = 1) := by
    intro t member
    rcases t.told (tiled.turned t member) x with ⟨winds, -⟩ | ⟨winds, out⟩
    · exact ⟨by omega, fun _ => winds⟩
    · exact ⟨by omega, fun within => absurd within out⟩
  have few : (ts.map fun t => t.winding x).sum ≤ 1 := by
    rw [tiled.sum_winding x]
    rcases whole.told turned x with ⟨winds, -⟩ | ⟨winds, -⟩ <;> omega
  refine (pairwise_of_sum_le_one (fun t member => (unit t member).1) few).imp_of_mem ?_
  rintro t u first second once ⟨withinT, withinU⟩
  exact once ⟨(unit t first).2 withinT, (unit u second).2 withinU⟩

/-- A side with its direction belongs to one triangle. -/
theorem nodup (tiled : Tiles whole ts) (turned : 0 < whole.area) :
    (ts.flatMap Triangle.sides).Nodup := by
  refine List.nodup_flatMap.2
    ⟨fun t member => Triangle.nodup_sides (tiled.turned t member), ?_⟩
  have apart : ts.Pairwise fun t u => ∀ x, ¬(t.Within x ∧ u.Within x) := by
    rw [List.pairwise_iff_forall_sublist]
    intro t u pair x
    exact List.pairwise_iff_forall_sublist.1 (tiled.pairwise turned x) pair
  refine apart.imp_of_mem ?_
  intro t u first second apart s sideT sideU
  obtain ⟨v, -, -, areaT, withinT⟩ := Triangle.exists_apex sideT
  obtain ⟨w, -, -, areaU, withinU⟩ := Triangle.exists_apex sideU
  obtain ⟨x, inT, inU⟩ := exists_within_both (areaT ▸ tiled.turned t first)
    (areaU ▸ tiled.turned u second)
  exact apart x ⟨(withinT x).2 inT, (withinU x).2 inU⟩

/-- A side has a triangle on its other side, unless it is one of the large triangle. -/
theorem mem_swap (tiled : Tiles whole ts) {s : Side ℝ} (side : s ∈ ts.flatMap Triangle.sides)
    (inner : s ∉ whole.sides) : s.swap ∈ ts.flatMap Triangle.sides := by
  classical
  -- count the side with its direction and against it
  let f : Side ℝ → ℤ := fun e => (if e = s then 1 else 0) - (if e = s.swap then 1 else 0)
  have alternating : Alternating f := by
    intro e
    have swapped : e.swap = s ↔ e = s.swap := by
      rw [← Prod.swap_inj, Prod.swap_swap]
    simp only [f, swapped, Prod.swap_inj]
    ring
  have counted : ∀ us, around f us = ((us.flatMap Triangle.sides).count s : ℤ)
      - (us.flatMap Triangle.sides).count s.swap := by
    intro us
    unfold around
    generalize us.flatMap Triangle.sides = l
    induction l with
    | nil => rfl
    | cons e l ih =>
        rw [List.map_cons, List.sum_cons, ih, List.count_cons, List.count_cons]
        simp only [f, beq_iff_eq]
        split_ifs <;> push_cast <;> ring
  have balance := tiled.balanced f alternating
  rw [counted, counted] at balance
  have present : 0 < (ts.flatMap Triangle.sides).count s := List.count_pos_iff.2 side
  have absent : (([whole].flatMap Triangle.sides).count s) = 0 :=
    List.count_eq_zero.2 (by simpa using inner)
  exact List.count_pos_iff.1 (by omega)

end Tiles

end RoadNoise.Triangulation
