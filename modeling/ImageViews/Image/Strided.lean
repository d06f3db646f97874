import ImageViews.Cursor
import ImageViews.Image.Basic

/-!
# Strided grids

A strided grid addresses stored cells by two signed strides, so that exchanging the strides
transposes it without moving a cell. The address of a position is computed with signed numbers
and only the result has to fall into the cells: a position outside the extent may well address a
cell of another row.
-/
namespace ImageViews

/-- An extent laid over stored cells by strides. -/
structure Strided (α : Type) where
  cells : Array α
  cols : Nat
  rows : Nat
  planes : Nat
  colStride : Int
  rowStride : Int

namespace Strided

variable {α : Type}

/-- The grid of an extent over cells stored row by row. -/
def ofCells (cells : Array α) (cols rows planes : Nat) : Check (Strided α) := do
  let needed ← Image.count cols rows planes
  Check.require (needed ≤ cells.size) .shortBuffer
  let rowLength ← Extent.mul cols planes
  return {
    cells, cols, rows, planes
    colStride := Coordinate.ofExtent planes
    rowStride := Coordinate.ofExtent rowLength }

def transpose (grid : Strided α) : Strided α where
  cells := grid.cells
  cols := grid.rows
  rows := grid.cols
  planes := grid.planes
  colStride := grid.rowStride
  rowStride := grid.colStride

def get (grid : Strided α) (x y : Int) (p : Nat) : Check α := do
  let dx ← Coordinate.mul x grid.colStride
  let dy ← Coordinate.mul y grid.rowStride
  let pixel ← Coordinate.add dx dy
  fetchCell grid.cells (← Extent.add (Extent.ofCoordinate pixel) p)

def addressing (grid : Strided α) : Addressing := .strides grid.colStride grid.rowStride 1

def read (grid : Strided α) (offset : Int) : Check α :=
  fetchCell grid.cells (Extent.ofCoordinate offset)

end Strided

def Image.strided {α : Type} (image : Image α) : Check (Strided α) :=
  Strided.ofCells image.cells image.cols image.rows image.planes

end ImageViews
