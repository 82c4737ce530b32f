/-
# RoadNoise.Decimal.Rounded -- decimals of a given precision

The exact value of a double, rounded to a number of places (`places`) or to a
number of significant digits (`scientific`).  A half goes to the even neighbour;
as the value is exact, a half really is one.
-/
import RoadNoise.Decimal.Binary

set_option autoImplicit false

namespace RoadNoise.Decimal

/-- A double with `count` places.  Zero keeps its sign. -/
def places (count : Nat) (x : Float) : String :=
  match Reading.ofFloat x with
  | .nan => "NaN"
  | .infinite negative => signed negative "inf"
  | .finite b =>
      signed b.negative (positional (roundEven (b.numerator * tenTo count) b.denominator) count)

/-- The digits and the exponent of a positive magnitude in scientific notation
with `count + 1` digits: `n · 10 ^ (e - count)` with `10 ^ count ≤ n < 10 ^ (count + 1)`. -/
def Binary.scientific (count : Nat) (b : Binary) : Nat × Int :=
  let e := exponentOf b.numerator b.denominator
  let shift : Int := count - e
  let n := roundEven (b.numerator * tenTo shift.toNat) (b.denominator * tenTo (-shift).toNat)
  if n = tenTo (count + 1) then (tenTo count, e + 1) else (n, e)

/-- A double in scientific notation with `count` places after the first digit.
Zero is written plainly, without a sign. -/
def scientific (count : Nat) (x : Float) : String :=
  match Reading.ofFloat x with
  | .nan => "NaN"
  | .infinite negative => signed negative "Infinity"
  | .finite b =>
      if b.mantissa = 0 then "0"
      else
        let (n, e) := b.scientific count
        signed b.negative (positional n count ++ "e" ++ toString e)

end RoadNoise.Decimal
