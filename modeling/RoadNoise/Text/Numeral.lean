/-
# RoadNoise.Text.Numeral -- numbers as they are written

A numeral keeps what a number's writing says: its sign, which zero has too, its
digits, the power of ten they count, and whether it was written as a whole number.
What number that is, and whether it is one in range, is decided by those who ask.
-/
import RoadNoise.Decimal.Binary
import RoadNoise.Decimal.Rounded

set_option autoImplicit false

namespace RoadNoise

/-- The number `± digits · 10 ^ scale`. -/
structure Numeral where
  negative : Bool
  digits : Nat
  scale : Int
  /-- It was written without a point or an exponent. -/
  whole : Bool

namespace Numeral

def ofNat (n : Nat) : Numeral := ⟨false, n, 0, true⟩

/-! ## Reading -/

def digitValue (c : Char) : Nat := c.toNat - '0'.toNat

/-- The number that some digits write, after others that write `n`. -/
def valueAfter (n : Nat) (digits : List Char) : Nat :=
  digits.foldl (fun n c => 10 * n + digitValue c) n

/-- A part of a numeral and the characters after it. -/
abbrev Part (β : Type) := β × List Char

/-- The sign of an exponent; it may be left out. -/
def exponentSign : List Char → Part Bool
  | '+' :: rest => (false, rest)
  | '-' :: rest => (true, rest)
  | rest => (false, rest)

/-- An exponent after its mark; it ends the numeral. -/
def exponentOf? (chars : List Char) : Option Int :=
  let (negative, digits) := exponentSign chars
  if digits.isEmpty || !digits.all Char.isDigit then none
  else some (if negative then -(valueAfter 0 digits : Int) else valueAfter 0 digits)

/-- What may follow the places: an exponent, or nothing. -/
def tail? : List Char → Option Int
  | [] => some 0
  | 'e' :: rest => exponentOf? rest
  | 'E' :: rest => exponentOf? rest
  | _ => none

/-- The whole part: a zero by itself, or digits that do not begin with one. -/
def wholePart? (chars : List Char) : Option (Part Nat) :=
  let digits := chars.takeWhile Char.isDigit
  let rest := chars.dropWhile Char.isDigit
  match digits with
  | [] => none
  | '0' :: _ :: _ => none
  | _ => some (valueAfter 0 digits, rest)

/-- A numeral without its sign. -/
def unsigned? (negative : Bool) (chars : List Char) : Option Numeral := do
  let (n, rest) ← wholePart? chars
  match rest with
  | [] => return ⟨negative, n, 0, true⟩
  | '.' :: rest =>
      let places := rest.takeWhile Char.isDigit
      if places.isEmpty then none
      else
        let e ← tail? (rest.dropWhile Char.isDigit)
        return ⟨negative, valueAfter n places, e - places.length, false⟩
  | _ => return ⟨negative, n, ← tail? rest, false⟩

def ofChars? : List Char → Option Numeral
  | '-' :: rest => unsigned? true rest
  | chars => unsigned? false chars

/-! ## Value -/

/-- The decimal exponents outside of which a double is infinite or zero. -/
def reach : Int := 400

/-- The nearest double, unless the numeral is beyond all of them. -/
def toFloat? (n : Numeral) : Option Float :=
  let size := (Decimal.digitCount n.digits : Int) + n.scale
  let magnitude : Float :=
    if n.digits = 0 ∨ size < -reach then 0
    else if reach < size then 1.0 / 0.0
    else Float.ofScientific n.digits (decide (n.scale < 0)) n.scale.natAbs
  if magnitude.isInf then none else some (if n.negative then -magnitude else magnitude)

/-- The number, if it was written as a whole number without a sign. -/
def toNat? (n : Numeral) : Option Nat :=
  if n.whole && !n.negative then some n.digits else none

/-! ## Writing -/

/-- The numeral in decimal, without an exponent. -/
def text (n : Numeral) : String :=
  Decimal.signed n.negative (Decimal.positional (n.digits * Decimal.tenTo n.scale.toNat) (-n.scale).toNat)

end Numeral

end RoadNoise
