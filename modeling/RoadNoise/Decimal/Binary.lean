/-
# RoadNoise.Decimal.Binary -- the exact value of a double

A finite double is a sign, a whole mantissa and a power of two; nothing about it
is approximate.  Every decimal text of this library is decided by whole-number
arithmetic on that triple.
-/

set_option autoImplicit false

namespace RoadNoise.Decimal

/-- A power of two. -/
def twoTo (k : Nat) : Nat := Nat.pow 2 k

/-- A power of ten. -/
def tenTo (k : Nat) : Nat := Nat.pow 10 k

/-- The number `mantissa · 2 ^ exponent`, with a sign that zero has too. -/
structure Binary where
  negative : Bool
  mantissa : Nat
  exponent : Int

/-- What the 64 bits of a double say. -/
inductive Reading where
  | nan
  | infinite (negative : Bool)
  | finite (value : Binary)

/-- The mantissa of the least normal double. -/
def leastNormal : Nat := twoTo 52

def Reading.ofFloat (x : Float) : Reading :=
  let bits := x.toBits.toNat
  let negative : Bool := twoTo 63 ≤ bits
  let field : Nat := bits / twoTo 52 % 2048
  let fraction : Nat := bits % twoTo 52
  if field = 2047 then if fraction = 0 then .infinite negative else .nan
  else if field = 0 then .finite ⟨negative, fraction, -1074⟩
  else .finite ⟨negative, leastNormal + fraction, (field : Int) - 1075⟩

namespace Binary

/-- The magnitude as a fraction: what is divided. -/
def numerator (b : Binary) : Nat := b.mantissa * twoTo b.exponent.toNat

/-- The magnitude as a fraction: what divides. -/
def denominator (b : Binary) : Nat := twoTo (-b.exponent).toNat

end Binary

/-- The number of decimal digits of a whole number; zero has one. -/
def digitCount (n : Nat) : Nat := (Nat.toDigits 10 n).length

/-- The decimal exponent of the positive fraction `n / d`: the greatest `e` with
`10 ^ e ≤ n / d`. -/
def exponentOf (n d : Nat) : Int :=
  let e : Int := (digitCount n : Int) - digitCount d
  if d * tenTo e.toNat ≤ n * tenTo (-e).toNat then e else e - 1

/-- The whole number nearest to `n / d`; a half goes to the even neighbour. -/
def roundEven (n d : Nat) : Nat :=
  let q := n / d
  let r := n % d
  if 2 * r < d then q
  else if d < 2 * r then q + 1
  else if q % 2 = 0 then q
  else q + 1

/-- `n / 10 ^ places`, written out with all its places. -/
def positional (n places : Nat) : String :=
  if places = 0 then toString n
  else
    let tail := toString (n % tenTo places)
    toString (n / tenTo places) ++ "." ++ "".pushn '0' (places - tail.length) ++ tail

def signed (negative : Bool) (text : String) : String :=
  if negative then "-" ++ text else text

end RoadNoise.Decimal
