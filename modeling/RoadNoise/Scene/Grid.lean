/-
# RoadNoise.Scene.Grid -- what lies near a place

A grid of square cells remembers, per cell, the numbers of the items whose rectangle
reaches into it.  A query looks only at the cells it touches and answers with item
numbers in increasing order: an item whose rectangle meets the query is never
missing, one that only shares a cell with it may be there too.
-/
import RoadNoise.Sequence
import RoadNoise.Plane.Box
import Std.Data.HashMap

set_option autoImplicit false

namespace RoadNoise

/-- A column and a row. -/
abbrev Cell := Int × Int

/-- A block of cells, its bounds included. -/
structure Block where
  imin : Int
  jmin : Int
  imax : Int
  jmax : Int

namespace Block

/-- The cells of a block, column by column. -/
def cells (b : Block) : List Cell :=
  (Sequence.between b.imin b.imax).flatMap fun i =>
    (Sequence.between b.jmin b.jmax).map fun j => (i, j)

def join (a b : Block) : Block :=
  ⟨min a.imin b.imin, min a.jmin b.jmin, max a.imax b.imax, max a.jmax b.jmax⟩

def meet (a b : Block) : Block :=
  ⟨max a.imin b.imin, max a.jmin b.jmin, min a.imax b.imax, min a.jmax b.jmax⟩

def isEmpty (b : Block) : Bool := b.imax < b.imin || b.jmax < b.jmin

end Block

structure Grid (α : Type) where
  /-- The side of a cell in metres. -/
  step : α
  cells : Std.HashMap Cell (List Nat)
  /-- The block around all cells that hold something. -/
  occupied : Option Block

namespace Grid

variable {α : Type} [Scalar α]

/-- The row or column of a coordinate. -/
def line (step x : α) : Int := Scalar.floor (x / step)

/-- The cells that a rectangle reaches into. -/
def blockOf (step : α) (b : Box α) : Block :=
  ⟨line step b.xmin, line step b.ymin, line step b.xmax, line step b.ymax⟩

/-- Enters an item into the cells of a block, ahead of what they hold. -/
def enter (cells : Std.HashMap Cell (List Nat)) (item : Nat) (block : Block) :
    Std.HashMap Cell (List Nat) :=
  block.cells.foldl (fun m c => m.insert c (item :: m.getD c [])) cells

def withStep (step : α) (boxes : List (Box α)) : Grid α :=
  let blocks := boxes.map (blockOf step)
  { step := step
    cells := blocks.zipIdx.foldr (fun (block, item) m => enter m item block) ∅
    occupied := (blocks.filter fun b => !b.isEmpty).foldl
      (fun all b => some (match all with | none => b | some a => a.join b)) none }

/-- The side of the cells for a set of rectangles: two hundred and fifty-six along
the longer side of what they cover, but not below ten metres. -/
def stepFor : List (Box α) → α
  | [] => 10
  | b :: rest =>
      let all := rest.foldl Box.join b
      max (max (all.xmax - all.xmin) (all.ymax - all.ymin) / 256) 10

def ofBoxes (boxes : List (Box α)) : Grid α := withStep (stepFor boxes) boxes

/-- The items of a cell. -/
def items (g : Grid α) (c : Cell) : List Nat := g.cells.getD c []

/-- The items in the cell of a point. -/
def atPoint (g : Grid α) (p : Point α) : List Nat := g.items (line g.step p.x, line g.step p.y)

/-- The items in the cells of a rectangle.  Cells that are known to be empty are not
visited, however large the rectangle is. -/
def inBox (g : Grid α) (b : Box α) : List Nat :=
  match g.occupied with
  | none => []
  | some all => Sequence.ascending (((blockOf g.step b).meet all).cells.flatMap g.items)

/-- The rows that a segment passes through in column `i`; `xa` and `xb` are its
western and eastern end. -/
def rows (g : Grid α) (p q : Point α) (xa xb : α) (i : Int) : List Int :=
  let dx := q.x - p.x
  let x0 := max (Scalar.ofInt i * g.step) xa
  let x1 := min (Scalar.ofInt (i + 1) * g.step) xb
  let upright : Bool := Scalar.abs dx < 1 / 4503599627370496
  let y0 := if upright then p.y else p.y + (x0 - p.x) / dx * (q.y - p.y)
  let y1 := if upright then q.y else p.y + (x1 - p.x) / dx * (q.y - p.y)
  Sequence.between (line g.step (min y0 y1)) (line g.step (max y0 y1))

/-- The items in the cells that a segment passes through. -/
def along (g : Grid α) (p q : Point α) : List Nat :=
  let xa := min p.x q.x
  let xb := max p.x q.x
  Sequence.ascending <|
    (Sequence.between (line g.step xa) (line g.step xb)).flatMap fun i =>
      (g.rows p q xa xb i).flatMap fun j => g.items (i, j)

end Grid

end RoadNoise
