/-
# RoadNoise.Proofs.Exact -- the library at the real numbers

Everything in this library is written over a `Scalar`.  Read at the real numbers
its definitions say what is computed when nothing is rounded, and that is what the
theorems are about.  The operators found at `ℝ` are the usual ones by definition, so
`ring`, `linarith` and their like work on unfolded definitions; the lemmas here
translate the few operations that `Scalar` names itself.
-/
import Mathlib
import RoadNoise.Fault
import RoadNoise.Plane.Point

set_option autoImplicit false

namespace RoadNoise

noncomputable instance : Scalar ℝ where
  add x y := x + y
  sub x y := x - y
  mul x y := x * y
  div x y := x / y
  neg x := -x
  zero := 0
  one := 1
  lt x y := x < y
  le x y := x ≤ y
  decLt := inferInstance
  decLe := inferInstance
  min := Min.min
  max := Max.max
  order x y := cmp x y
  isFinite _ := true
  abs x := |x|
  sqrt := Real.sqrt
  hypot x y := Real.sqrt (x ^ 2 + y ^ 2)
  exp := Real.exp
  log10 := Real.logb 10
  pow := fun x y => x ^ y
  asin := Real.arcsin
  atan2 y x := Complex.arg ⟨x, y⟩
  pi := Real.pi
  ofNat n := n
  ofInt n := n
  ofDecimal := OfScientific.ofScientific
  floor := Int.floor
  ceil x := ⌈x⌉
  truncate := Nat.floor

namespace Scalar

/-! ## Operations -/

@[simp] theorem abs_eq (x : ℝ) : Scalar.abs x = |x| := rfl

@[simp] theorem sqrt_eq (x : ℝ) : Scalar.sqrt x = Real.sqrt x := rfl

@[simp] theorem hypot_eq (x y : ℝ) : Scalar.hypot x y = Real.sqrt (x ^ 2 + y ^ 2) := rfl

@[simp] theorem exp_eq (x : ℝ) : Scalar.exp x = Real.exp x := rfl

@[simp] theorem log10_eq (x : ℝ) : Scalar.log10 x = Real.logb 10 x := rfl

@[simp] theorem pow_eq (x y : ℝ) : Scalar.pow x y = x ^ y := rfl

@[simp] theorem isFinite_eq (x : ℝ) : Scalar.isFinite x = true := rfl

@[simp] theorem ofNat_eq (n : Nat) : (Scalar.ofNat n : ℝ) = n := rfl

@[simp] theorem ofInt_eq (n : Int) : (Scalar.ofInt n : ℝ) = n := rfl

@[simp] theorem floor_eq (x : ℝ) : Scalar.floor x = ⌊x⌋ := rfl

theorem order_eq (x y : ℝ) : Scalar.order x y = cmp x y := rfl

/-! ## Comparisons and the tolerance -/

theorem eps_eq : (Scalar.eps : ℝ) = 1 / 1000000000 := by
  unfold Scalar.eps
  norm_num

theorem eps_pos : 0 < (Scalar.eps : ℝ) := by
  rw [eps_eq]
  norm_num

theorem eps_lt_one : (Scalar.eps : ℝ) < 1 := by
  rw [eps_eq]
  norm_num

@[simp] theorem near_iff (x y : ℝ) : Scalar.near x y = true ↔ |x - y| < Scalar.eps := by
  simp [Scalar.near]

@[simp] theorem near_eq_false_iff (x y : ℝ) :
    Scalar.near x y = false ↔ Scalar.eps ≤ |x - y| := by
  simp [Scalar.near]

@[simp] theorem within_iff (lo hi x : ℝ) :
    Scalar.within lo hi x = true ↔ lo ≤ x ∧ x ≤ hi := by
  simp [Scalar.within]

@[simp] theorem order_isLE_iff (x y : ℝ) : (Scalar.order x y).isLE = true ↔ x ≤ y := by
  rw [order_eq, cmp, cmpUsing]
  split_ifs with below above
  · simp [le_of_lt below]
  · simpa using above
  · simpa using above

theorem le_clamp {lo hi : ℝ} (x : ℝ) (ordered : lo ≤ hi) : lo ≤ Scalar.clamp lo hi x := by
  unfold Scalar.clamp
  split_ifs with below above
  · exact le_rfl
  · exact ordered
  · exact not_lt.1 below

theorem clamp_le {lo hi : ℝ} (x : ℝ) (ordered : lo ≤ hi) : Scalar.clamp lo hi x ≤ hi := by
  unfold Scalar.clamp
  split_ifs with below above
  · exact ordered
  · exact le_rfl
  · exact not_lt.1 above

theorem clamp_of_mem {lo hi x : ℝ} (above : lo ≤ x) (below : x ≤ hi) :
    Scalar.clamp lo hi x = x := by
  rw [Scalar.clamp, if_neg (not_lt.2 above), if_neg (not_lt.2 below)]

/-- Strictly between the bounds a number was not held to them. -/
theorem clamp_eq_self {lo hi x : ℝ} (above : lo < Scalar.clamp lo hi x)
    (below : Scalar.clamp lo hi x < hi) : Scalar.clamp lo hi x = x := by
  unfold Scalar.clamp at above below ⊢
  split_ifs at above below ⊢
  · exact absurd above (lt_irrefl _)
  · exact absurd below (lt_irrefl _)
  · rfl

/-! ## Sums -/

theorem foldl_add_eq (xs : List ℝ) (x : ℝ) : xs.foldl (· + ·) x = x + xs.sum := by
  induction xs generalizing x with
  | nil => simp
  | cons y ys ih => rw [List.foldl_cons, ih, List.sum_cons, add_assoc]

@[simp] theorem sum_eq (xs : List ℝ) : Scalar.sum xs = xs.sum := by
  have folded := foldl_add_eq xs 0
  rw [zero_add] at folded
  exact folded

end Scalar

/-! ## Checks -/

theorem bind_eq_ok_iff {ε α β : Type} {x : Except ε α} {f : α → Except ε β} {b : β} :
    x >>= f = .ok b ↔ ∃ a, x = .ok a ∧ f a = .ok b := by
  cases x with
  | error e => simp [bind, Except.bind]
  | ok a => simp [bind, Except.bind]

/-- What follows a check that passes. -/
theorem check_bind_eq_ok_iff {ε β : Type} {x : Except ε Unit} {f : Unit → Except ε β} {b : β} :
    x >>= f = .ok b ↔ x = .ok () ∧ f () = .ok b := by
  rw [bind_eq_ok_iff]
  exact ⟨fun ⟨_, passes⟩ => passes, fun passes => ⟨(), passes⟩⟩

theorem bind_eq_error_iff {ε α β : Type} {x : Except ε α} {f : α → Except ε β} {e : ε} :
    x >>= f = .error e ↔ x = .error e ∨ ∃ a, x = .ok a ∧ f a = .error e := by
  cases x with
  | error e => simp [bind, Except.bind]
  | ok a => simp [bind, Except.bind]

theorem forM_eq_ok_iff {ε α : Type} {l : List α} {f : α → Except ε Unit} {u : Unit} :
    l.forM f = .ok u ↔ ∀ x ∈ l, f x = .ok () := by
  induction l with
  | nil => simp [pure, Except.pure]
  | cons x l ih =>
      have split : (x :: l).forM f = f x >>= fun _ => l.forM f := rfl
      rw [split, bind_eq_ok_iff, List.forall_mem_cons, ← ih]
      constructor
      · rintro ⟨_, first, later⟩
        exact ⟨first, later⟩
      · rintro ⟨first, later⟩
        exact ⟨(), first, later⟩

/-- A list is mapped if each entry is; `P` says which entries are and `g` to what. -/
theorem mapM_eq_ok_iff {ε α β : Type} {l : List α} {f : α → Except ε β} {P : α → Prop} {g : α → β}
    (each : ∀ a ∈ l, ∀ b, f a = .ok b ↔ P a ∧ b = g a) {made : List β} :
    l.mapM f = .ok made ↔ (∀ a ∈ l, P a) ∧ made = l.map g := by
  induction l generalizing made with
  | nil => simp [pure, Except.pure, eq_comm]
  | cons a l ih =>
      obtain ⟨head, tail⟩ := List.forall_mem_cons.1 each
      rw [List.mapM_cons, List.forall_mem_cons, List.map_cons]
      simp only [bind_eq_ok_iff, head, ih tail]
      constructor
      · rintro ⟨_, ⟨first, rfl⟩, _, ⟨later, rfl⟩, whole⟩
        exact ⟨⟨first, later⟩, (Except.ok.inj whole).symm⟩
      · rintro ⟨⟨first, later⟩, rfl⟩
        exact ⟨_, ⟨first, rfl⟩, _, ⟨later, rfl⟩, rfl⟩

theorem require_eq_ok_iff {α : Type} {condition : Bool} {fault : Fault α} {u : Unit} :
    require condition fault = .ok u ↔ condition = true := by
  unfold require
  split_ifs with h <;> simp [h]

theorem require_eq_error_iff {α : Type} {condition : Bool} {fault e : Fault α} :
    require condition fault = .error e ↔ condition = false ∧ e = fault := by
  unfold require
  split_ifs with h <;> simp [h, eq_comm]

theorem demand_eq_ok_iff {α : Type} [Scalar α] {raise : Defect α → Fault α} {what : String}
    {rule : Rule} {x : α} {u : Unit} : demand raise what rule x = .ok u ↔ rule.admits x = true :=
  require_eq_ok_iff

end RoadNoise
