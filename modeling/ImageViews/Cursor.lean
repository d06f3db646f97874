import ImageViews.Word

/-!
# Cursors

A cursor keeps its place in a grid of pixels and moves by columns, rows and planes. Over stored
pixels the place is a linear offset and a move adds a stride to it; over computed pixels it is a
position. A move never looks at the extent of the grid: whether a place holds a pixel is decided
when it is read.
-/
namespace ImageViews

structure Position where
  x : Int := 0
  y : Int := 0
  p : Int := 0
  deriving DecidableEq, Repr

/-- How a cursor keeps its place. -/
inductive Addressing
  /-- By an offset, with the distances from a cell to its neighbours. -/
  | strides (col row plane : Int)
  | coordinates
  deriving DecidableEq, Repr

namespace Addressing

abbrev Place : Addressing → Type
  | strides .. => Int
  | coordinates => Position

def nextCol : (a : Addressing) → a.Place → Check a.Place
  | strides col _ _, (offset : Int) => Coordinate.add offset col
  | coordinates, (place : Position) => do
    return { place with x := ← Coordinate.add place.x 1 }

def nextRow : (a : Addressing) → a.Place → Check a.Place
  | strides _ row _, (offset : Int) => Coordinate.add offset row
  | coordinates, (place : Position) => do
    return { place with y := ← Coordinate.add place.y 1 }

def nextPlane : (a : Addressing) → a.Place → Check a.Place
  | strides _ _ plane, (offset : Int) => Coordinate.add offset plane
  | coordinates, (place : Position) => do
    return { place with p := ← Coordinate.add place.p 1 }

def advance : (a : Addressing) → a.Place → (dx dy dp : Int) → Check a.Place
  | strides col row plane, (offset : Int), dx, dy, dp => do
    let cols ← Coordinate.mul dx col
    let rows ← Coordinate.mul dy row
    let planar ← Coordinate.add cols rows
    let planes ← Coordinate.mul dp plane
    Coordinate.add offset (← Coordinate.add planar planes)
  | coordinates, (place : Position), dx, dy, dp => do
    let x ← Coordinate.add place.x dx
    let y ← Coordinate.add place.y dy
    let p ← Coordinate.add place.p dp
    return { x, y, p }

end Addressing

/-- Visits `n` places, counted from `i`, and moves on after each of them, the last one included. -/
@[specialize]
def sweep {m : Type → Type} [Monad m] [MonadLiftT Check m] {π β : Type} (step : π → Check π)
    (visit : Nat → π → β → m β) : (n i : Nat) → π → β → m β
  | 0, _, _, acc => pure acc
  | n + 1, i, place, acc => do
    let acc ← visit i place acc
    let place ← step place
    sweep step visit n (i + 1) place acc

end ImageViews
