/-
# RoadNoise.Proofs.Comparison -- numbers that can be put in order

Sorting keeps entries that it cannot tell apart in the order they came in, so what comes
out of it depends on that order unless the comparison tells all of them apart
(`Sequence.sortOn_eq_of_perm`).  Two things have to be known of the numbers for it: their
comparison is one, and ordinary numbers that it takes for the same are near each other.
Both hold of the real numbers and of doubles, where the comparison goes by the bits, so
that a number compares equal to itself only.  Nearness is mutual in both, since a difference
of doubles and the difference the other way round are rounded alike (`Double.near_comm`).
-/
import RoadNoise.Double
import RoadNoise.Proofs.Sequence
import RoadNoise.Scene.Relief

set_option autoImplicit false

namespace RoadNoise

/-- The comparison of the numbers is one, and it tells apart what is not near. -/
class Scalar.Ordered (α : Type) [Scalar α] : Prop
    extends Std.TransCmp (Scalar.order : α → α → Ordering) where
  near_of_order_eq {x y : α} (finite : Scalar.isFinite x = true)
    (finite' : Scalar.isFinite y = true) (same : Scalar.order x y = .eq) : Scalar.near x y = true

/-- No two numbers have one place in the comparison, and nearness is mutual. -/
class Scalar.Sharp (α : Type) [Scalar α] : Prop extends Scalar.Ordered α where
  eq_of_order_eq {x y : α} (same : Scalar.order x y = .eq) : x = y
  near_comm (x y : α) : Scalar.near x y = Scalar.near y x

/-! ## Real numbers -/

instance : Scalar.Ordered ℝ where
  eq_swap := (cmp_swap _ _).symm
  isLE_trans := by
    simp only [Scalar.order_isLE_iff]
    exact le_trans
  near_of_order_eq := by
    intro x y _ _ same
    obtain rfl : x = y := (cmp_eq_eq_iff _ _).1 same
    simpa using Scalar.eps_pos

instance : Scalar.Sharp ℝ where
  eq_of_order_eq same := (cmp_eq_eq_iff _ _).1 same
  near_comm x y := by
    rw [Bool.eq_iff_iff, Scalar.near_iff, Scalar.near_iff, abs_sub_comm]

/-! ## Doubles -/

namespace Double

/-- No two doubles have one place in the order. -/
theorem rank_injective : Function.Injective rank := by
  intro x y same
  have bits : x.toBits.toNat = y.toBits.toNat := by
    unfold rank at same
    dsimp only at same
    split_ifs at same <;> omega
  have bits : x.toBits = y.toBits := UInt64.toNat_inj.1 bits
  obtain ⟨⟨_, _⟩⟩ := x
  obtain ⟨⟨_, _⟩⟩ := y
  obtain rfl := bits
  rfl

open Float.Model in
theorem unpacked_sub_self {u : UnpackedFloat} (finite : u.isFinite = true) :
    UnpackedFloat.sub .binary64 u u = .zero .positive := by
  cases u with
  | infinity sign => simp [UnpackedFloat.isFinite] at finite
  | notANumber => simp [UnpackedFloat.isFinite] at finite
  | zero sign => cases sign <;> rfl
  | finite sign mantissa exponent positive =>
      -- one exponent on both sides, so the mantissas cancel before anything is rounded
      simp [UnpackedFloat.sub, UnpackedFloat.normalize]

theorem sub_self {x : Float} (finite : x.isFinite = true) : x - x = 0 := by
  have zero : (0 : Float) = ⟨.pack (.zero .positive)⟩ := by decide
  rw [zero, ← unpacked_sub_self finite]
  rfl

instance : Scalar.Ordered Float where
  eq_swap := (inferInstance : Std.TransCmp (compareOn rank)).eq_swap
  isLE_trans := (inferInstance : Std.TransCmp (compareOn rank)).isLE_trans
  near_of_order_eq := by
    intro x y finite _ same
    obtain rfl : x = y := rank_injective (Std.LawfulEqOrd.eq_of_compare same)
    show decide ((x - x).abs < (Scalar.eps : Float)) = true
    rw [sub_self finite]
    decide

/-! ### Differences the other way round -/

section Nearness

open Float.Model Float.Model.UnpackedFloat

variable (f : Format)

theorem abs_round (s s' : Sign) (m : Nat) (e : Int) :
    (UnpackedFloat.round f s m e).abs = (UnpackedFloat.round f s' m e).abs := by
  simp only [UnpackedFloat.round, roundWithAccuracy]
  split_ifs <;> rfl

theorem abs_normalize_neg (m e : Int) (s : Sign) :
    (UnpackedFloat.normalize f (-m) e s).abs = (UnpackedFloat.normalize f m e s).abs := by
  unfold UnpackedFloat.normalize
  rcases lt_trichotomy m 0 with below | rfl | above
  · rw [Int.compare_eq_gt.2 (by omega), Int.compare_eq_lt.2 below]
    exact abs_round f _ _ _ _
  · rfl
  · rw [Int.compare_eq_lt.2 (by omega), Int.compare_eq_gt.2 above, neg_neg]
    exact abs_round f _ _ _ _

theorem abs_sub_comm (u v : UnpackedFloat) :
    (UnpackedFloat.sub f u v).abs = (UnpackedFloat.sub f v u).abs := by
  cases u with
  | notANumber => cases v <;> rfl
  | infinity s =>
      cases v with
      | infinity s' => cases s <;> cases s' <;> rfl
      | _ => rfl
  | zero s =>
      cases v with
      | zero s' => cases s <;> cases s' <;> rfl
      | _ => rfl
  | finite s m e =>
      cases v with
      | finite s' m' e' =>
          -- both are brought to the lesser exponent, and the mantissas change their roles
          simp only [UnpackedFloat.sub]
          rw [← abs_normalize_neg, neg_sub, min_comm]
      | _ => rfl

theorem abs_unpack_packComponents (s s' : Sign) (exponent : BitVec f.exponentBits)
    (mantissa : BitVec f.mantissaBitsWithoutImplicit) :
    (UnpackedFloat.unpack f (packComponents f s exponent mantissa)).abs
      = (UnpackedFloat.unpack f (packComponents f s' exponent mantissa)).abs := by
  simp only [UnpackedFloat.unpack, unpackExponent_packComponents, unpackMantissa_packComponents]
  split_ifs <;> rfl

/-- Packing looks at the sign for the sign bit only. -/
theorem abs_unpack_pack {u v : UnpackedFloat} (same : u.abs = v.abs) :
    (UnpackedFloat.unpack f (UnpackedFloat.pack f u)).abs
      = (UnpackedFloat.unpack f (UnpackedFloat.pack f v)).abs := by
  cases u with
  | notANumber =>
      cases v <;> cases same
      rfl
  | infinity s =>
      cases v <;> cases same
      exact abs_unpack_packComponents ..
  | zero s =>
      cases v <;> cases same
      exact abs_unpack_packComponents ..
  | finite s m e =>
      cases v <;> cases same
      simp only [UnpackedFloat.pack]
      split_ifs <;> exact abs_unpack_packComponents ..

end Nearness

theorem near_comm (x y : Float) : Scalar.near x y = Scalar.near y x := by
  have same : (x - y).abs = (y - x).abs := by
    show (⟨.pack _⟩ : Float) = ⟨.pack _⟩
    congr 2
    exact abs_unpack_pack _ (abs_sub_comm _ _ _)
  show decide ((x - y).abs < (Scalar.eps : Float)) = decide ((y - x).abs < (Scalar.eps : Float))
  rw [same]

instance : Scalar.Sharp Float where
  eq_of_order_eq same := rank_injective (Std.LawfulEqOrd.eq_of_compare same)
  near_comm := near_comm

end Double

/-! ## Sorting -/

namespace Sequence

variable {β : Type} {order : β → β → Ordering} [Std.TransCmp order]

theorem isLE_or_isLE (order : β → β → Ordering) [Std.TransCmp order] (a b : β) :
    (order a b).isLE = true ∨ (order b a).isLE = true := by
  have swap : order b a = (order a b).swap := Std.OrientedCmp.eq_swap
  rw [swap]
  cases order a b <;> simp

theorem sorted_sortOn (order : β → β → Ordering) [Std.TransCmp order] (l : List β) :
    (sortOn order l).Pairwise fun a b => (order a b).isLE :=
  pairwise_sortOn order (fun _ _ _ => Std.TransCmp.isLE_trans) (isLE_or_isLE order) l

/-- Entries that the comparison tells apart have one order. -/
theorem sortOn_eq_of_perm {l m : List β} (perm : l.Perm m)
    (apart : l.Pairwise fun a b => order a b ≠ .eq) : sortOn order l = sortOn order m := by
  have symm : Std.Symm fun a b => order a b ≠ .eq :=
    ⟨fun _ _ apart same => apart (Std.OrientedCmp.eq_symm same)⟩
  refine List.Perm.eq_of_pairwise ?_ (sorted_sortOn order l) (sorted_sortOn order m)
    ((sortOn_perm order l).trans (perm.trans (sortOn_perm order m).symm))
  intro a b isEntry isEntry' below above
  by_contra other
  exact apart.forall (mem_sortOn.1 isEntry) (perm.mem_iff.2 (mem_sortOn.1 isEntry')) other
    (Std.OrientedCmp.isLE_antisymm below above)

end Sequence

/-! ## Points -/

variable {α : Type} [Scalar α] [Scalar.Ordered α]

instance : Std.TransCmp (Point.order : Point α → Point α → Ordering) :=
  inferInstanceAs (Std.TransCmp
    (compareLex (Ordering.byKey Point.x Scalar.order) (Ordering.byKey Point.y Scalar.order)))

/-- Points that compare equal share their planar position. -/
theorem Point.samePlanar_of_order_eq {p q : Point α} (finite : p.isFinite = true)
    (finite' : q.isFinite = true) (same : p.order q = .eq) : p.samePlanar q = true := by
  simp only [isFinite, Bool.and_eq_true] at finite finite'
  obtain ⟨sameX, sameY⟩ := Ordering.then_eq_eq.1 same
  rw [samePlanar, Scalar.Ordered.near_of_order_eq finite.1.1 finite'.1.1 sameX,
    Scalar.Ordered.near_of_order_eq finite.1.2 finite'.1.2 sameY]
  rfl

theorem Point.samePlanar_comm {α : Type} [Scalar α] [Scalar.Sharp α] (p q : Point α) :
    p.samePlanar q = q.samePlanar p := by
  rw [samePlanar, samePlanar, Scalar.Sharp.near_comm p.x, Scalar.Sharp.near_comm p.y]

/-- The vertices of a relief do not depend on the order of its points, if no two of them
share a planar position. -/
theorem Relief.verticesOf_eq_of_perm {points points' : List (Point α)}
    (perm : points.Perm points') (finite : ∀ p ∈ points, p.isFinite = true)
    (apart : points.Pairwise fun p q => p.samePlanar q = false) :
    verticesOf points = verticesOf points' := by
  have told : points.Pairwise fun p q => p.order q ≠ .eq := by
    refine apart.imp_of_mem fun isPoint isPoint' apart same => ?_
    rw [Point.samePlanar_of_order_eq (finite _ isPoint) (finite _ isPoint') same] at apart
    exact absurd apart (by decide)
  rw [verticesOf, verticesOf, Sequence.sortOn_eq_of_perm perm told]

end RoadNoise
