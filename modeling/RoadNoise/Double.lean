/-
# RoadNoise.Double -- computing with doubles

The instance a program runs at.  `max` and `min` pass over a value that is not a
number, `hypot` neither overflows nor vanishes on the way, `order` is the total
order of the 64 bits (negative zero before zero, numbers between the values that
are none), and the passages to whole numbers stop at the ends of 64 bits.
-/
import RoadNoise.Scalar
import RoadNoise.Decimal.Binary

set_option autoImplicit false

namespace RoadNoise.Double

/-- The greater of two doubles; the other one, where one is not a number. -/
def max (x y : Float) : Float :=
  if x.isNaN then y else if y.isNaN then x else if x < y then y else x

/-- The lesser of two doubles; the other one, where one is not a number. -/
def min (x y : Float) : Float :=
  if x.isNaN then y else if y.isNaN then x else if y < x then y else x

/-- The place of a double in the total order of all of them. -/
def rank (x : Float) : Int :=
  let bits := x.toBits.toNat
  if bits < Decimal.twoTo 63 then bits else -1 - ((bits - Decimal.twoTo 63 : Nat) : Int)

/-- The diagonal, with both sides scaled by a power of two so that no square leaves
the range. -/
def hypot (x y : Float) : Float :=
  if x.isInf || y.isInf then 1.0 / 0.0
  else
    let long := max x.abs y.abs
    let shift : Int := if long > 1e150 then -600 else if long < 1e-120 then 600 else 0
    let a := x.scaleB shift
    let b := y.scaleB shift
    (a * a + b * b).sqrt.scaleB (-shift)

end RoadNoise.Double

namespace RoadNoise

instance : Scalar Float where
  add := Float.add
  sub := Float.sub
  mul := Float.mul
  div := Float.div
  neg := Float.neg
  zero := 0
  one := 1
  lt x y := x < y
  le x y := x ≤ y
  decLt := Float.decLt
  decLe := Float.decLe
  min := Double.min
  max := Double.max
  order x y := compare (Double.rank x) (Double.rank y)
  isFinite := Float.isFinite
  abs := Float.abs
  sqrt := Float.sqrt
  hypot := Double.hypot
  exp := Float.exp
  log10 := Float.log10
  pow := Float.pow
  asin := Float.asin
  atan2 := Float.atan2
  pi := 3.141592653589793
  ofNat := Float.ofNat
  ofInt := Float.ofInt
  ofDecimal := OfScientific.ofScientific
  floor x := x.floor.toInt64.toInt
  ceil := Float.ceil
  truncate x := x.toUInt64.toNat

end RoadNoise
