/-
# RoadNoise.Sequence -- neighbours, near repeats and order in lists

The lists of this library are rings of vertices, positions along a line and item
numbers.  They are walked pairwise (`adjacent`, `cyclic`), freed of near repeats
(`thin`) and put in order (`sortOn`, `ascending`).
-/

set_option autoImplicit false

namespace RoadNoise.Sequence

variable {β : Type}

/-- Neighbours in order: `[a, b, c]` gives `[(a, b), (b, c)]`. -/
def adjacent (l : List β) : List (β × β) := l.zip l.tail

/-- Neighbours in a ring: `[a, b, c]` gives `[(a, b), (b, c), (c, a)]`. -/
def cyclic : List β → List (β × β)
  | [] => []
  | a :: l => (a :: l).zip (l ++ [a])

/-- What `thin` keeps after it has kept `last`. -/
def thinAfter (same : β → β → Bool) (last : β) : List β → List β
  | [] => []
  | b :: l => if same b last then thinAfter same last l else b :: thinAfter same b l

/-- Drops every entry that is the same as the last one kept. -/
def thin (same : β → β → Bool) : List β → List β
  | [] => []
  | b :: l => b :: thinAfter same b l

/-- Sorts by a comparison; entries that compare equal keep their order. -/
def sortOn (order : β → β → Ordering) (l : List β) : List β :=
  l.mergeSort fun a b => (order a b).isLE

/-- The numbers of a list, each once, from the least to the greatest. -/
def ascending (l : List Nat) : List Nat :=
  thin (· == ·) (l.mergeSort fun a b => a ≤ b)

/-- The whole numbers from `lo` to `hi`, both included. -/
def between (lo hi : Int) : List Int :=
  (List.range (hi + 1 - lo).toNat).map fun k => lo + Int.ofNat k

end RoadNoise.Sequence
