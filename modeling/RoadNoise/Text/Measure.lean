/-
# RoadNoise.Text.Measure -- computed values in JSON

A computed value is written to a millionth, as a number without an exponent and
without idle zeros.  What is too large for that, or no number, is written as a text
in scientific notation.
-/
import RoadNoise.Decimal.Shortest
import RoadNoise.Text.Json

set_option autoImplicit false

namespace RoadNoise.Json

/-- A value with nine significant digits, as a text. -/
def scientific (x : Float) : Json := .text (some (Decimal.scientific 8 x))

/-- A value to a millionth. -/
def measure (x : Float) : Json :=
  if x.isFinite ∧ x.abs < 1e9 then
    let millionths := (x * 1e6).round.toInt64.toInt
    let (digits, places) := Decimal.trim millionths.natAbs 6
    .number ⟨decide (millionths < 0), digits, -(places : Int), true⟩
  else scientific x

def nat (n : Nat) : Json := .number (.ofNat n)

def string (t : String) : Json := .text (some t)

/-- An object with the given members. -/
def record (members : List (String × Json)) : Json :=
  .object (members.map fun (name, value) => (some name, value))

/-- A value of the list, or `null`. -/
def optional {β : Type} (write : β → Json) : Option β → Json
  | some value => write value
  | none => .null

def list {β : Type} (write : β → Json) (values : List β) : Json := .array (values.map write)

/-- The member of an object, unless it is missing or `null`. -/
def get? (value : Json) (name : String) : Option Json :=
  match value with
  | .object members =>
      match members.lookup (some name) with
      | some .null => none
      | found => found
  | _ => none

end RoadNoise.Json
