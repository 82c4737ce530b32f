/-
# RoadNoise.Fault -- what can be wrong, and how it is said

A fault names its cause; its wording is one function, `Fault.message`.  Most
causes are a value outside its range, so ranges are data too: a `Rule` both
decides (`Rule.admits`) and words what it asks for.

A fault is *fatal* when it would come back for every receiver of a batch.
-/
import RoadNoise.Band

set_option autoImplicit false

namespace RoadNoise

/-! ## Ranges -/

/-- What is asked of a number. -/
inductive Rule where
  | unitInterval
  | belowOne
  | percentage
  | daysOfYear
  | positive
  | positiveSpeed
  | notNegative
  | finiteNotNegative
  | aboveAbsoluteZero
  deriving DecidableEq

namespace Rule

variable {α : Type} [Scalar α]

/-- `x` is an ordinary number that obeys the rule. -/
def admits (rule : Rule) (x : α) : Bool :=
  Scalar.isFinite x &&
    match rule with
    | .unitInterval => Scalar.within 0 1 x
    | .belowOne => 0 ≤ x && x < 1
    | .percentage => Scalar.within 0 100 x
    | .daysOfYear => Scalar.within 0 365 x
    | .positive | .positiveSpeed => 0 < x
    | .notNegative | .finiteNotNegative => 0 ≤ x
    | .aboveAbsoluteZero => -273.15 < x

def text : Rule → String
  | .unitInterval => "in [0, 1]"
  | .belowOne => "in [0, 1)"
  | .percentage => "in [0, 100] %"
  | .daysOfYear => "in [0, 365] days"
  | .positive => "> 0"
  | .positiveSpeed => "> 0 km/h"
  | .notNegative => ">= 0"
  | .finiteNotNegative => "finite and >= 0"
  | .aboveAbsoluteZero => "above absolute zero"

/-- What follows the refused value in a message. -/
def unit : Rule → String
  | .aboveAbsoluteZero => " °C"
  | _ => ""

end Rule

/-! ## Causes -/

/-- What is wrong with an input. -/
inductive Defect (α : Type) where
  | outOfRange (what : String) (rule : Rule) (value : α)
  | notFinite (what : String) (value : Option α)
  | strayCoordinate (what : String)
  | tooFew (what : String) (least : Nat) (parts : String) (got : Nat)
  /-- A spectrum with a number of levels that is not that of its bands. -/
  | levelCount (bands : BandSet) (got : Nat)
  /-- A table with a number of values that is not that of the bands. -/
  | tableSize (what : String) (bands : BandSet) (got : Nat)
  | duplicateReceiver (id : Nat)
  /-- A defect that its words describe. -/
  | stated (text : String)

/-- Why an operation is refused. -/
inductive Fault (α : Type) where
  | invalid (defect : Defect α)
  | sceneOpen
  | sceneClosed
  | bandMismatch (expected actual : BandSet)
  | unknownSurface (name : String)
  | settings (defect : Defect α)
  /-- A text that is not what it should describe. -/
  | malformed (what : String)
  /-- A file that cannot be read. -/
  | unreadable (what : String)

/-- A result or the reason why there is none. -/
abbrev Outcome (α : Type) := Except (Fault α)

namespace Fault

variable {α : Type}

/-- The fault would come back for every receiver of a batch. -/
def isFatal : Fault α → Bool
  | .bandMismatch _ _ | .settings _ | .unknownSurface _ => true
  | _ => false

end Fault

/-! ## Words -/

variable {α : Type}

/-- A defect in words; `write` writes the numbers. -/
def Defect.text (write : α → String) : Defect α → String
  | .outOfRange what rule value =>
      what ++ " must be " ++ rule.text ++ ", got " ++ write value ++ rule.unit
  | .notFinite what none => what ++ " is not finite"
  | .notFinite what (some value) => what ++ " is not finite: " ++ write value
  | .strayCoordinate what => what ++ " has non-finite coordinates"
  | .tooFew what least parts got => s!"{what} needs at least {least} {parts}, got {got}"
  | .levelCount bands got => s!"{bands.label} spectrum needs {bands.size} levels, got {got}"
  | .tableSize what bands got => s!"{what} has {got} values, {bands.label} needs {bands.size}"
  | .duplicateReceiver id => s!"duplicate receiver id {id}"
  | .stated text => text

/-- A fault in words; `write` writes the numbers. -/
def Fault.message (write : α → String) : Fault α → String
  | .invalid defect => "invalid input: " ++ defect.text write
  | .sceneOpen => "profile is not finished, call finish_building() first"
  | .sceneClosed => "profile is finished and cannot be modified"
  | .bandMismatch expected actual =>
      s!"band set mismatch: expected {expected.label}, got {actual.label}"
  | .unknownSurface name => "unknown road surface: " ++ name
  | .settings defect => "invalid configuration: " ++ defect.text write
  | .malformed what => "Failed to parse " ++ what
  | .unreadable what => "Failed to read " ++ what

/-! ## Checks -/

/-- Passes when `condition` holds. -/
def require (condition : Bool) (fault : Fault α) : Outcome α Unit :=
  if condition then .ok () else .error fault

/-- Passes when `value` obeys `rule`; `raise` says whose fault it is otherwise. -/
def demand [Scalar α] (raise : Defect α → Fault α) (what : String) (rule : Rule) (value : α) :
    Outcome α Unit :=
  require (rule.admits value) (raise (.outOfRange what rule value))

end RoadNoise
