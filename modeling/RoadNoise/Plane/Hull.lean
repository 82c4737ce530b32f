/-
# RoadNoise.Plane.Hull -- hulls and taut strings

Both are found by one scan over sorted points with a stack of those that may still
be corners: a new point first takes off the stack what it makes superfluous
(`slacken`).  The convex hull walks its lower side and then its upper side; the taut
string over heights in a vertical plane is the upper side alone.
-/
import RoadNoise.Sequence
import RoadNoise.Plane.Point

set_option autoImplicit false

namespace RoadNoise.Hull

variable {α β : Type} [Scalar α]

/-- Positive where the way from `o` to `b` turns counter-clockwise from the way
from `o` to `a`. -/
def turn (o a b : α × α) : α := (a.1 - o.1) * (b.2 - o.2) - (a.2 - o.2) * (b.1 - o.1)

/-- Takes corners off a stack as long as the two uppermost and `p` make the upper
one superfluous. -/
def slacken (superfluous : β → β → β → Bool) (p : β) : List β → List β
  | b :: a :: rest =>
      if superfluous a b p then slacken superfluous p (a :: rest) else b :: a :: rest
  | stack => stack
  termination_by stack => stack.length

/-! ## The convex hull -/

/-- The corner `b` between `a` and `p` is no left turn. -/
def noLeftTurn (a b p : Point α) : Bool :=
  turn (a.x, a.y) (b.x, b.y) (p.x, p.y) ≤ Scalar.eps

/-- One side of a hull over sorted points, without its last point. -/
def side (points : List (Point α)) : List (Point α) :=
  (points.foldl (fun stack p => p :: slacken noLeftTurn p stack) []).tail.reverse

/-- The corners of the convex hull of the horizontal projections, counter-clockwise
from the westernmost.  Points between two corners are no corners. -/
def convex (points : List (Point α)) : List (Point α) :=
  let sorted := Sequence.thin Point.samePlanar (Sequence.sortOn Point.order points)
  if sorted.length < 3 then sorted else side sorted ++ side sorted.reverse

/-! ## The taut string -/

/-- A height over an abscissa, with the place of the pair in its list. -/
structure Peg (α : Type) where
  place : Nat
  abscissa : α
  height : α

namespace Peg

/-- Pegs by abscissa, the higher one first where that ties. -/
def order (a b : Peg α) : Ordering :=
  (Scalar.order a.abscissa b.abscissa).then (Scalar.order b.height a.height)

/-- The peg `b` between `a` and `p` does not stand out. -/
def sunken (a b p : Peg α) : Bool :=
  -Scalar.eps ≤ turn (a.abscissa, a.height) (b.abscissa, b.height) (p.abscissa, p.height)

/-- The string after one more peg.  Of pegs at one abscissa the higher came first,
and the others do not hold the string. -/
def hang (string : List (Peg α)) (p : Peg α) : List (Peg α) :=
  match slacken sunken p string with
  | last :: rest =>
      if Scalar.near last.abscissa p.abscissa then last :: rest else p :: last :: rest
  | [] => [p]

end Peg

/-- The pairs that a string holds on to when it is pulled taut over all of them, as
places in the list, by increasing abscissa. -/
def taut (pairs : List (α × α)) : List Nat :=
  let pegs := pairs.zipIdx.map fun ((x, h), i) => (⟨i, x, h⟩ : Peg α)
  ((Sequence.sortOn Peg.order pegs).foldl Peg.hang []).reverse.map Peg.place

end RoadNoise.Hull
