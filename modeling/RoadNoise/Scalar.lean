/-
# RoadNoise.Scalar -- the numbers everything is computed with

Geometry, propagation and levels are written once over a type `α` of numbers.
`Scalar α` lists what they ask of it: the four operations, an order, the handful
of transcendental functions of acoustics, and the passages between `α` and whole
numbers.  A program runs at `Float` (`RoadNoise.Double`); the same definitions
read at the real numbers are the exact model of what is computed.

Two operations are here only because a number type may hold more than numbers.
`isFinite` tells the ordinary values from the others, and `order` is a total
comparison, so that sorting is defined whatever is sorted.

The operators are found here last: where a type already has an addition, that is
the one a `+` means.
-/

set_option autoImplicit false

namespace RoadNoise

/-- What the model asks of its numbers. -/
class Scalar (α : Type) where
  add : α → α → α
  sub : α → α → α
  mul : α → α → α
  div : α → α → α
  neg : α → α
  zero : α
  one : α
  lt : α → α → Prop
  le : α → α → Prop
  decLt : DecidableRel lt
  decLe : DecidableRel le
  min : α → α → α
  max : α → α → α
  /-- A total comparison, which agrees with `<` on ordinary numbers. -/
  order : α → α → Ordering
  isFinite : α → Bool
  abs : α → α
  sqrt : α → α
  /-- The length of the diagonal of a rectangle. -/
  hypot : α → α → α
  exp : α → α
  log10 : α → α
  pow : α → α → α
  asin : α → α
  /-- `atan2 y x` is the angle of `(x, y)` from the first axis. -/
  atan2 : α → α → α
  pi : α
  ofNat : Nat → α
  ofInt : Int → α
  /-- The decimal `digits · 10 ^ (± exponent)`, where the sign is negative if the flag
  is set. -/
  ofDecimal : (digits : Nat) → (negative : Bool) → (exponent : Nat) → α
  /-- The next integer down. -/
  floor : α → Int
  /-- The next whole value up. -/
  ceil : α → α
  /-- The whole part of a number that is not negative. -/
  truncate : α → Nat

namespace Scalar

variable {α : Type} [Scalar α]

/-! ## Operators -/

instance (priority := 50) : Add α := ⟨Scalar.add⟩

instance (priority := 50) : Sub α := ⟨Scalar.sub⟩

instance (priority := 50) : Mul α := ⟨Scalar.mul⟩

instance (priority := 50) : Div α := ⟨Scalar.div⟩

instance (priority := 50) : Neg α := ⟨Scalar.neg⟩

instance (priority := 50) : Zero α := ⟨Scalar.zero⟩

instance (priority := 50) : One α := ⟨Scalar.one⟩

instance (priority := 50) : LT α := ⟨Scalar.lt⟩

instance (priority := 50) : LE α := ⟨Scalar.le⟩

instance (priority := 50) : DecidableLT α := Scalar.decLt

instance (priority := 50) : DecidableLE α := Scalar.decLe

instance (priority := 50) : Min α := ⟨Scalar.min⟩

instance (priority := 50) : Max α := ⟨Scalar.max⟩

instance (priority := 50) : OfScientific α := ⟨Scalar.ofDecimal⟩

/-- Whole literals. -/
instance (priority := 50) (n : Nat) : OfNat α (n + 2) := ⟨Scalar.ofNat (n + 2)⟩

/-! ## Derived operations -/

/-- The tolerance of planar geometry, in metres or as a relative position. -/
def eps : α := 1e-9

def tau : α := 2 * Scalar.pi

/-- The square of a number. -/
def sq (x : α) : α := x * x

/-- Holds `x` between two bounds. -/
def clamp (lo hi x : α) : α :=
  if x < lo then lo else if hi < x then hi else x

/-- `x` lies between two bounds, both included. -/
def within (lo hi x : α) : Bool := lo ≤ x && x ≤ hi

/-- One with the sign of `x`. -/
def sign (x : α) : α := if x < 0 then -1 else if 0 < x then 1 else x

/-- Two numbers are told apart by no more than the tolerance. -/
def near (x y : α) : Bool := Scalar.abs (x - y) < eps

/-- The sum of a list, from its head on. -/
def sum (xs : List α) : α := xs.foldl (· + ·) 0

end Scalar

end RoadNoise
