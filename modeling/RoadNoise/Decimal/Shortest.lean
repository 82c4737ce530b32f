/-
# RoadNoise.Decimal.Shortest -- the fewest digits that read back

A double stands for every real number that rounds to it: an interval around its
value, with its ends where the mantissa is even.  Its shortest text is the point
of the coarsest decimal grid that falls into the interval, and of two such points
the nearer one.  One of the two grid points next to the value falls into the
interval if any point of the grid does, so two tests decide a grid.

The text is positional whatever the exponent, and a whole number has no point.
-/
import RoadNoise.Decimal.Binary

set_option autoImplicit false

namespace RoadNoise.Decimal

namespace Binary

/-- Compares `c · 10 ^ g` with `k · 2 ^ p`. -/
def compareGrid (c : Nat) (g : Int) (k : Nat) (p : Int) : Ordering :=
  compare (c * tenTo g.toNat * twoTo (-p).toNat) (k * twoTo p.toNat * tenTo (-g).toNat)

/-- The lower end of the interval of `b`, in quarters of its unit.  Below a power
of two the neighbour is twice as near. -/
def lowerQuarters (b : Binary) : Nat :=
  if b.mantissa = leastNormal ∧ b.exponent ≠ -1074 then 4 * b.mantissa - 1
  else 4 * b.mantissa - 2

/-- `c · 10 ^ g` reads back as `b`. -/
def readsBack (b : Binary) (c : Nat) (g : Int) : Bool :=
  let low := compareGrid c g b.lowerQuarters (b.exponent - 2)
  let high := compareGrid c g (4 * b.mantissa + 2) (b.exponent - 2)
  if b.mantissa % 2 = 0 then low.isGE && high.isLE else low.isGT && high.isLT

/-- The point of the grid of step `10 ^ g` that reads back as `b`, nearest to it;
the upper one of two that are equally near. -/
def onGrid (b : Binary) (g : Int) : Option Nat :=
  let n := b.numerator * tenTo (-g).toNat
  let d := b.denominator * tenTo g.toNat
  let below := n / d
  let r := n % d
  match b.readsBack below g, b.readsBack (below + 1) g with
  | true, true => some (if 2 * r < d then below else below + 1)
  | true, false => some below
  | false, true => some (below + 1)
  | false, false => none

/-- The first grid that has a point for `b`, among those that give it `digits`
digits, one more, and so on; seventeen digits always do. -/
def search (b : Binary) (e : Int) : Nat → Nat → Nat × Int
  | _, 0 => (0, 0)
  | digits, tries + 1 =>
      let g := e + 1 - digits
      match b.onGrid g with
      | some c => (c, g)
      | none => b.search e (digits + 1) tries

/-- The shortest decimal `c · 10 ^ g` of a positive magnitude. -/
def shortest (b : Binary) : Nat × Int :=
  b.search (exponentOf b.numerator b.denominator) 1 17

end Binary

/-- Takes zeros off the end of a count of `10 ^ (-places)`. -/
def trim : Nat → Nat → Nat × Nat
  | n, 0 => (n, 0)
  | n, places + 1 => if n % 10 = 0 then trim (n / 10) places else (n, places + 1)

/-- The shortest text of a double. -/
def text (x : Float) : String :=
  match Reading.ofFloat x with
  | .nan => "NaN"
  | .infinite negative => signed negative "inf"
  | .finite b =>
      if b.mantissa = 0 then signed b.negative "0"
      else
        let (c, g) := b.shortest
        let (n, places) := trim (c * tenTo g.toNat) (-g).toNat
        signed b.negative (positional n places)

end RoadNoise.Decimal
