/-
# RoadNoise.Proofs.Numbers -- less, greater, least and greatest

A value of a `Scalar` is a number when it is level with itself.  Numbers lie in a line,
and `min` and `max` choose among them (`Scalar.Linear`).  That holds of the real numbers,
and of doubles, where everything but not-a-number is a number: a comparison goes by the
sign first, then by the exponent and then by the digits (`Double.compare_eq_inLine`).

So a rectangle around points with ordinary coordinates reaches exactly as far as they do,
whatever it is computed with (`Box.tight_of_around?`).
-/
import RoadNoise.Double
import RoadNoise.Plane.Box
import RoadNoise.Proofs.Exact

set_option autoImplicit false

namespace RoadNoise

/-- The value is a number: one that is none is not even level with itself. -/
def Scalar.IsNumber {α : Type} [Scalar α] (x : α) : Prop := x ≤ x

/-- Numbers lie in a line. -/
class Scalar.Linear (α : Type) [Scalar α] : Prop where
  isNumber {x : α} (finite : Scalar.isFinite x = true) : Scalar.IsNumber x
  le_trans {x y z : α} (first : x ≤ y) (second : y ≤ z) : x ≤ z
  le_of_lt {x y : α} (below : x < y) : x ≤ y
  le_of_not_lt {x y : α} (number : Scalar.IsNumber x) (number' : Scalar.IsNumber y)
    (above : ¬x < y) : y ≤ x
  min_eq {x y : α} (number : Scalar.IsNumber x) (number' : Scalar.IsNumber y) :
    min x y = if y < x then y else x
  max_eq {x y : α} (number : Scalar.IsNumber x) (number' : Scalar.IsNumber y) :
    max x y = if x < y then y else x
  isNumber_eps : Scalar.IsNumber (Scalar.eps : α)

/-! ## Real numbers -/

instance : Scalar.Linear ℝ where
  isNumber _ := le_refl _
  le_trans first second := le_trans first second
  le_of_lt below := le_of_lt below
  le_of_not_lt _ _ above := not_lt.1 above
  min_eq {x y} _ _ := by
    show min x y = _
    rcases lt_or_ge y x with below | above
    · rw [min_eq_right below.le, if_pos below]
    · rw [min_eq_left above, if_neg (not_lt.2 above)]
  max_eq {x y} _ _ := by
    show max x y = _
    rcases lt_or_ge x y with below | above
    · rw [max_eq_right below.le, if_pos below]
    · rw [max_eq_left above, if_neg (not_lt.2 above)]
  isNumber_eps := le_refl _

/-! ## Doubles -/

namespace Double

open Float.Model Float.Model.UnpackedFloat

/-- Negative doubles before zero, positive ones after it, infinities outermost. -/
def side : UnpackedFloat → Int
  | .infinity .negative => -2
  | .finite .negative _ _ _ => -1
  | .finite .positive _ _ _ => 1
  | .infinity .positive => 2
  | _ => 0

/-- The exponent, turned round for negative doubles. -/
def scale : UnpackedFloat → Int
  | .finite s _ exponent _ => s.apply exponent
  | _ => 0

/-- The mantissa with its sign. -/
def digits : UnpackedFloat → Int
  | .finite s mantissa _ _ => s.apply mantissa
  | _ => 0

/-- The comparison of doubles that are numbers. -/
def inLine : UnpackedFloat → UnpackedFloat → Ordering :=
  compareLex (compareOn side) (compareLex (compareOn scale) (compareOn digits))

instance : Std.TransCmp inLine :=
  inferInstanceAs (Std.TransCmp
    (compareLex (compareOn side) (compareLex (compareOn scale) (compareOn digits))))

theorem compare_neg_neg (a b : Int) : compare (-a) (-b) = (compare a b).swap := by
  rw [Int.compare_swap]
  simp only [compare, compareOfLessAndEq]
  split_ifs <;> first | rfl | omega

theorem compare_natCast (m n : Nat) : compare (m : Int) (n : Int) = compare m n := by
  simp only [compare, compareOfLessAndEq]
  split_ifs <;> first | rfl | omega

theorem compare_eq_inLine {u v : UnpackedFloat} (number : u.isNaN = false)
    (number' : v.isNaN = false) : u.compare v = some (inLine u v) := by
  cases u with
  | notANumber => simp [UnpackedFloat.isNaN] at number
  | infinity s =>
      cases v with
      | notANumber => simp [UnpackedFloat.isNaN] at number'
      | infinity s' => cases s <;> cases s' <;> rfl
      | zero => cases s <;> rfl
      | finite s' => cases s <;> cases s' <;> rfl
  | zero =>
      cases v with
      | notANumber => simp [UnpackedFloat.isNaN] at number'
      | infinity s' => cases s' <;> rfl
      | zero => rfl
      | finite s' => cases s' <;> rfl
  | finite s m e =>
      cases v with
      | notANumber => simp [UnpackedFloat.isNaN] at number'
      | infinity s' => cases s <;> cases s' <;> rfl
      | zero => cases s <;> rfl
      | finite s' m' e' =>
          cases s <;> cases s'
          case negative.positive => rfl
          case positive.negative => rfl
          -- on one side of zero the exponents decide, then the mantissas
          all_goals
            simp [UnpackedFloat.compare, inLine, compareLex, compareOn, side, scale, digits,
              Sign.apply, compare_neg_neg, compare_natCast, Ordering.swap_then]

/-- Only numbers compare. -/
theorem numbers_of_compare {u v : UnpackedFloat} {o : Ordering} (told : u.compare v = some o) :
    u.isNaN = false ∧ v.isNaN = false := by
  cases u <;> cases v <;> simp [UnpackedFloat.compare] at told <;> simp [UnpackedFloat.isNaN]

variable {x y : Float}

theorem le_iff : x ≤ y ↔
    ∃ o, x.toModel.unpack.compare y.toModel.unpack = some o ∧ o.isLE = true := by
  show decide (x.toModel ≤ y.toModel) = true ↔ _
  rw [decide_eq_true_iff]
  show Option.any (·.isLE) (x.toModel.unpack.compare y.toModel.unpack) = true ↔ _
  rw [Option.any_eq_true]

theorem lt_iff : x < y ↔ x.toModel.unpack.compare y.toModel.unpack = some .lt := by
  show decide (x.toModel < y.toModel) = true ↔ _
  rw [decide_eq_true_iff]
  exact beq_iff_eq

theorem isNaN_of_le (le : x ≤ y) : x.isNaN = false ∧ y.isNaN = false := by
  obtain ⟨o, told, -⟩ := le_iff.1 le
  exact numbers_of_compare told

theorem le_iff_inLine (number : x.isNaN = false) (number' : y.isNaN = false) :
    x ≤ y ↔ (inLine x.toModel.unpack y.toModel.unpack).isLE = true := by
  rw [le_iff, compare_eq_inLine number number']
  simp

theorem lt_iff_inLine (number : x.isNaN = false) (number' : y.isNaN = false) :
    x < y ↔ inLine x.toModel.unpack y.toModel.unpack = .lt := by
  rw [lt_iff, compare_eq_inLine number number', Option.some.injEq]

theorem isNaN_of_isFinite (finite : x.isFinite = true) : x.isNaN = false := by
  have finite : x.toModel.unpack.isFinite = true := finite
  show x.toModel.unpack.isNaN = false
  cases u : x.toModel.unpack <;> simp [u, UnpackedFloat.isFinite, UnpackedFloat.isNaN] at finite ⊢

/-- Everything but not-a-number is a number. -/
theorem isNumber_iff : Scalar.IsNumber x ↔ x.isNaN = false :=
  ⟨fun number => (isNaN_of_le number).1,
    fun number => (le_iff_inLine number number).2 Std.ReflCmp.isLE_rfl⟩

instance : Scalar.Linear Float where
  isNumber finite := isNumber_iff.2 (isNaN_of_isFinite finite)
  le_trans {x y z} first second := by
    obtain ⟨number, number'⟩ := isNaN_of_le first
    obtain ⟨-, number''⟩ := isNaN_of_le second
    exact (le_iff_inLine number number'').2 (Std.TransCmp.isLE_trans
      ((le_iff_inLine number number').1 first) ((le_iff_inLine number' number'').1 second))
  le_of_lt below := le_iff.2 ⟨.lt, lt_iff.1 below, rfl⟩
  le_of_not_lt {x y} number number' above := by
    have number := isNumber_iff.1 number
    have number' := isNumber_iff.1 number'
    have swapped : inLine y.toModel.unpack x.toModel.unpack
        = (inLine x.toModel.unpack y.toModel.unpack).swap := Std.OrientedCmp.eq_swap
    refine (le_iff_inLine number' number).2 ?_
    rw [swapped]
    cases order : inLine x.toModel.unpack y.toModel.unpack with
    | lt => exact absurd ((lt_iff_inLine number number').2 order) above
    | eq => rfl
    | gt => rfl
  min_eq {x y} number number' := by
    show Double.min x y = _
    rw [Double.min, isNumber_iff.1 number, isNumber_iff.1 number']
    rfl
  max_eq {x y} number number' := by
    show Double.max x y = _
    rw [Double.max, isNumber_iff.1 number, isNumber_iff.1 number']
    rfl
  isNumber_eps := isNumber_iff.2 (by decide +kernel)

end Double

/-! ## Rectangles -/

section Rectangles

variable {α : Type} [Scalar α]

/-- The rectangle reaches exactly as far as the points do. -/
structure Box.Tight (b : Box α) (points : Set (Point α)) : Prop where
  west : IsLeast (Point.x '' points) b.xmin
  south : IsLeast (Point.y '' points) b.ymin
  east : IsGreatest (Point.x '' points) b.xmax
  north : IsGreatest (Point.y '' points) b.ymax

variable [Scalar.Linear α]

open Scalar.Linear

theorem Scalar.isLeast_insert {s : Set α} {m y : α} (least : IsLeast s m)
    (number : Scalar.IsNumber y) : IsLeast (insert y s) (min m y) := by
  have level : Scalar.IsNumber m := least.2 least.1
  rw [min_eq level number]
  split_ifs with below
  · refine ⟨Set.mem_insert _ _, fun x member => ?_⟩
    rcases member with rfl | old
    · exact number
    · exact le_trans (le_of_lt below) (least.2 old)
  · refine ⟨Set.mem_insert_of_mem _ least.1, fun x member => ?_⟩
    rcases member with rfl | old
    · exact le_of_not_lt number level below
    · exact least.2 old

theorem Scalar.isGreatest_insert {s : Set α} {m y : α} (greatest : IsGreatest s m)
    (number : Scalar.IsNumber y) : IsGreatest (insert y s) (max m y) := by
  have level : Scalar.IsNumber m := greatest.2 greatest.1
  rw [max_eq level number]
  split_ifs with above
  · refine ⟨Set.mem_insert _ _, fun x member => ?_⟩
    rcases member with rfl | old
    · exact number
    · exact le_trans (greatest.2 old) (le_of_lt above)
  · refine ⟨Set.mem_insert_of_mem _ greatest.1, fun x member => ?_⟩
    rcases member with rfl | old
    · exact le_of_not_lt level number above
    · exact greatest.2 old

namespace Box

variable {b : Box α} {points : Set (Point α)}

theorem tight_singleton {p : Point α} (finite : p.isFinite = true) :
    Tight ⟨p.x, p.y, p.x, p.y⟩ {p} := by
  simp only [Point.isFinite, Bool.and_eq_true] at finite
  have levelX := isNumber finite.1.1
  have levelY := isNumber finite.1.2
  constructor <;> rw [Set.image_singleton]
  · exact ⟨rfl, fun _ same => same ▸ levelX⟩
  · exact ⟨rfl, fun _ same => same ▸ levelY⟩
  · exact ⟨rfl, fun _ same => same ▸ levelX⟩
  · exact ⟨rfl, fun _ same => same ▸ levelY⟩

theorem Tight.expand (tight : b.Tight points) {p : Point α} (finite : p.isFinite = true) :
    (b.expand p).Tight (insert p points) := by
  simp only [Point.isFinite, Bool.and_eq_true] at finite
  constructor <;> rw [Set.image_insert_eq]
  · exact Scalar.isLeast_insert tight.west (isNumber finite.1.1)
  · exact Scalar.isLeast_insert tight.south (isNumber finite.1.2)
  · exact Scalar.isGreatest_insert tight.east (isNumber finite.1.1)
  · exact Scalar.isGreatest_insert tight.north (isNumber finite.1.2)

theorem Tight.foldl (tight : b.Tight points) {ps : List (Point α)}
    (finite : ∀ p ∈ ps, p.isFinite = true) :
    (ps.foldl Box.expand b).Tight (points ∪ {p | p ∈ ps}) := by
  induction ps generalizing b points with
  | nil => simpa using tight
  | cons p ps ih =>
      obtain ⟨first, later⟩ := List.forall_mem_cons.1 finite
      have grown : insert p points ∪ {q | q ∈ ps} = points ∪ {q | q ∈ p :: ps} := by
        ext q
        simp only [Set.mem_union, Set.mem_insert_iff, Set.mem_ofPred_eq, List.mem_cons]
        tauto
      rw [← grown]
      exact ih (tight.expand first) later

/-- The rectangle around points with ordinary coordinates is tight. -/
theorem tight_of_around? {ps : List (Point α)} (made : around? ps = some b)
    (finite : ∀ p ∈ ps, p.isFinite = true) : b.Tight {p | p ∈ ps} := by
  cases ps with
  | nil => simp [around?] at made
  | cons p ps =>
      obtain rfl : around p ps = b := by simpa [around?] using made
      obtain ⟨first, later⟩ := List.forall_mem_cons.1 finite
      have whole : {q | q ∈ p :: ps} = {p} ∪ {q | q ∈ ps} := by
        ext q
        simp
      rw [whole]
      exact (tight_singleton first).foldl later

end Box

end Rectangles

end RoadNoise
