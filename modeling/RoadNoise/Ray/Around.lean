/-
# RoadNoise.Ray.Around -- around obstacles, left and right

A string laid around the two ends and the outlines of all obstacles touches the
corners of their convex hull; its two sides from source to receiver are the detours.
A side may run into further buildings.  They join the obstacles and the string is
laid again, until it meets nothing new: the obstacles can only grow, and there are
only so many buildings (`notIncluded_lt`).
-/
import RoadNoise.Plane.Hull
import RoadNoise.Ray.Path

set_option autoImplicit false

namespace RoadNoise

variable {α : Type} [Scalar α]

/-- The ways around both sides. -/
structure Sides (α : Type) where
  left : List (Point α)
  right : List (Point α)

namespace Hull

/-- The corners of a ring on the way from place `i` to place `j`, forwards and
backwards, both ends excluded.  A way from a place to itself goes all around. -/
def ways {β : Type} (ring : List β) (i j : Nat) : List β × List β :=
  let others := ring.zipIdx.drop (i + 1) ++ ring.zipIdx.take i
  let upTo (l : List (β × Nat)) : List β := (l.takeWhile fun e => e.2 != j).map Prod.fst
  (upTo others, upTo others.reverse)

end Hull

namespace Scene

/-- The corners of the outlines of some buildings. -/
def outlineCorners (s : Scene α) (included : List Nat) : List (Point α) :=
  (Sequence.ascending included).flatMap fun b =>
    match s.buildings[b]? with
    | some building => building.outline.outer
    | none => []

/-- Both ways around some buildings, unless an end is no corner of the hull. -/
def sidesAround (s : Scene α) (source receiver : Point α) (included : List Nat) :
    Option (Sides α) :=
  let hull := Hull.convex (source :: receiver :: s.outlineCorners included)
  match hull.findIdx? (·.samePlanar source), hull.findIdx? (·.samePlanar receiver) with
  | some i, some j =>
      let (ahead, back) := Hull.ways hull i j
      some
        { left := Polyline.graded (source :: back ++ [receiver])
          right := Polyline.graded (source :: ahead ++ [receiver]) }
  | _, _ => none

/-- The buildings in the way of both sides that are not among the included ones. -/
def newlyMet (s : Scene α) (sides : Sides α) (included : List Nat) : List Nat :=
  let legs := Sequence.adjacent sides.left ++ Sequence.adjacent sides.right
  (legs.flatMap fun (p, q) => s.obstructing p q).filter fun b =>
    decide (b < s.buildings.size) && !included.contains b

/-- The numbers below `n` that are not included. -/
def notIncluded (n : Nat) (included : List Nat) : List Nat :=
  (List.range n).filter fun b => !included.contains b

theorem notIncluded_lt {n : Nat} {included met : List Nat} {b : Nat}
    (new : b < n ∧ b ∉ included) (isMet : b ∈ met) :
    (notIncluded n (included ++ met)).length < (notIncluded n included).length := by
  have again : notIncluded n (included ++ met)
      = (notIncluded n included).filter fun b => !met.contains b := by
    simp [notIncluded, List.filter_filter, Bool.and_comm]
  rw [again, List.length_filter_lt_length_iff_exists]
  exact ⟨b, by simp [notIncluded, new], by simpa using isMet⟩

/-- Both ways around the included buildings and all that these ways run into. -/
def settledSides (s : Scene α) (source receiver : Point α) (included : List Nat) :
    Option (Sides α) :=
  match s.sidesAround source receiver included with
  | none => none
  | some sides =>
      match _ : s.newlyMet sides included with
      | [] => some sides
      | b :: met => s.settledSides source receiver (included ++ b :: met)
  termination_by (notIncluded s.buildings.size included).length
  decreasing_by
    have isMet : b ∈ s.newlyMet sides included := by
      simp [‹s.newlyMet sides included = b :: met›]
    refine notIncluded_lt (b := b) ?_ (by simp)
    simpa [newlyMet] using (List.mem_filter.1 isMet).2

/-- The path along a way around obstacles, from `source` to the last point of the way. -/
def aroundPath (s : Scene α) (kind : PathKind) (way : List (Point α)) (source : Point α)
    (directLength : α) (sourceFactor : Option α) : Path α :=
  let edges := Polyline.inner way
  { kind := kind
    events := bentEvents source (way.getLastD source) edges
    length := Polyline.length way
    directLength := directLength
    detour := some (.level (Polyline.length way - directLength) (Polyline.length edges))
    footing := s.footing way sourceFactor }

/-- The paths around the obstacles of the direct line, left before right.  A side
without a corner gives none. -/
def aroundPaths (s : Scene α) (source receiver : Point α) (obstacles : List Nat)
    (directLength : α) (sourceFactor : Option α) : List (Path α) :=
  match s.settledSides source receiver obstacles with
  | none => []
  | some sides =>
      [(PathKind.left, sides.left), (.right, sides.right)].filterMap fun (kind, way) =>
        if 2 < way.length then
          some (s.aroundPath kind way source directLength sourceFactor)
        else none

end Scene

end RoadNoise
