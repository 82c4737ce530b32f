/-
# RoadNoise.Text.Shape -- typed values in JSON

A shape reads a value of one type and refuses everything else: nothing is converted,
and a `null` stands for an absent value only where one may be absent.

A record is an object of named fields or a list of them in order.  Names that the
record does not know are passed over, a field given twice is an error, and so is an
element beyond the last field.  Where two lists of members could mean different
things -- a record and a map -- the shape decides.
-/
import RoadNoise.Text.Json

set_option autoImplicit false

namespace RoadNoise

/-- How a type is read. -/
abbrev Shape (β : Type) := Json → Option β

namespace Shape

variable {β γ : Type}

/-! ## Plain values -/

def float : Shape Float
  | .number n => n.toFloat?
  | _ => none

/-- A whole number below a bound. -/
def natBelow (bound : Nat) : Shape Nat
  | .number n => n.toNat?.filter (· < bound)
  | _ => none

/-- A whole number of 64 bits. -/
def nat : Shape Nat := natBelow (Decimal.twoTo 64)

def bool : Shape Bool
  | .bool b => some b
  | _ => none

def string : Shape String
  | .text t => t
  | _ => none

/-- A value that may be absent. -/
def optional (shape : Shape β) : Shape (Option β)
  | .null => some none
  | value => (shape value).map some

def list (shape : Shape β) : Shape (List β)
  | .array items => items.mapM shape
  | _ => none

/-- A list of exactly `n` values. -/
def vector (n : Nat) (shape : Shape β) : Shape (Vector β n) := fun value => do
  let values ← list shape value
  if h : values.toArray.size = n then return ⟨values.toArray, h⟩ else none

def pair (first : Shape β) (second : Shape γ) : Shape (β × γ)
  | .array [a, b] => do return (← first a, ← second b)
  | _ => none

/-! ## Choices and maps -/

/-- One of some names; also an object whose one member has the name and `null`. -/
def choice (names : List (String × β)) : Shape β
  | .text (some t) => names.lookup t
  | .object [(some t, .null)] => names.lookup t
  | _ => none

/-- An object whose one member is named for an alternative and holds its value. -/
def alternative (shapes : List (String × Shape β)) : Shape β
  | .object [(some t, value)] => (shapes.lookup t).bind (· value)
  | _ => none

/-- An object whose names are keys, in its order. -/
def map (key : String → Option γ) (shape : Shape β) : Shape (List (γ × β))
  | .object members =>
      members.mapM fun (name, value) => do return (← name.bind key, ← shape value)
  | _ => none

/-! ## Records -/

/-- The fields of a record, each absent or a value. -/
abbrev Fields := List (Option Json)

/-- Enters a member into the fields that `names` name. -/
def enter (name : String) (value : Json) : List String → Fields → Option Fields
  | n :: names, field :: fields =>
      if n = name then
        match field with
        | none => some (some value :: fields)
        | some _ => none
      else (enter name value names fields).map (field :: ·)
  | _, fields => some fields

/-- The fields of a record with the given names. -/
def fields (names : List String) : Shape Fields
  | .object members =>
      members.foldlM
        (fun given (name, value) => name.bind fun n => enter n value names given)
        (names.map fun _ => none)
  | .array items =>
      if items.length ≤ names.length then
        some (items.map some ++ List.replicate (names.length - items.length) none)
      else none
  | _ => none

/-- A field that has to be given. -/
def required (shape : Shape β) (field : Option Json) : Option β := field.bind shape

/-- A field that has a value of its own when it is not given. -/
def withDefault (default : β) (shape : Shape β) : Option Json → Option β
  | none => some default
  | some value => shape value

end Shape

end RoadNoise
