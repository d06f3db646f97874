import ImageViews.Cells
import ImageViews.Cursor

/-!
# Kernels

A kernel is a dense rectangle of coefficients, at least one, stored row by row. Convolution reads
it rotated by half a turn, which walks the same cells backwards. An anchor is the coefficient that
lies on the output pixel.
-/
namespace ImageViews

structure Kernel (κ : Type) where
  cols : Nat
  rows : Nat
  coeffs : Array κ
  cols_pos : 0 < cols
  rows_pos : 0 < rows
  size_coeffs : coeffs.size = cols * rows

/-- A position in a rectangle of `cols` columns and `rows` rows. -/
structure Anchor (cols rows : Nat) where
  col : Nat
  row : Nat
  col_lt : col < cols
  row_lt : row < rows

namespace Anchor

variable {cols rows : Nat}

/-- The coefficients that precede the anchor once the kernel is rotated. -/
def before (a : Anchor cols rows) : Nat × Nat := (cols - 1 - a.col, rows - 1 - a.row)

/-- The coefficients that follow the anchor once the kernel is rotated. -/
def after (a : Anchor cols rows) : Nat × Nat := (a.col, a.row)

end Anchor

inductive Orientation
  | upright
  | rotated
  deriving DecidableEq, Repr

/-- The distance from a coefficient to the next one of its row. -/
def Orientation.sign : Orientation → Int
  | upright => 1
  | rotated => -1

namespace Kernel

variable {κ : Type}

def ofCoeffs (cols rows : Nat) (coeffs : Array κ) : Except Failure (Kernel κ) := do
  if h : 0 < cols ∧ 0 < rows then
    let _ ← (Extent.mul cols rows : Check Nat)
    if size : coeffs.size = cols * rows then
      return { cols, rows, coeffs, cols_pos := h.1, rows_pos := h.2, size_coeffs := size }
    else
      throw (.error (.kernelSize cols rows coeffs.size))
  else
    throw (.error (.kernelSize cols rows coeffs.size))

def get? (kernel : Kernel κ) (i j : Nat) : Option κ :=
  if i < kernel.cols ∧ j < kernel.rows then kernel.coeffs[j * kernel.cols + i]? else none

/-- The middle of the kernel; of two middle columns or rows the first. -/
def center (kernel : Kernel κ) : Anchor kernel.cols kernel.rows where
  col := (kernel.cols - 1) / 2
  row := (kernel.rows - 1) / 2
  col_lt := by have := kernel.cols_pos; omega
  row_lt := by have := kernel.rows_pos; omega

def start (kernel : Kernel κ) : Orientation → Int
  | .upright => 0
  | .rotated => kernel.coeffs.size - 1

/-- How a walk moves. A kernel has a single plane. -/
def addressing (kernel : Kernel κ) (orientation : Orientation) : Addressing :=
  .strides orientation.sign (orientation.sign * kernel.cols) 0

def read (kernel : Kernel κ) (offset : Int) : Check κ :=
  fetchCell kernel.coeffs (Extent.ofCoordinate offset)

def map {κ' : Type} (f : κ → κ') (kernel : Kernel κ) : Kernel κ' :=
  { kernel with
    coeffs := kernel.coeffs.map f
    size_coeffs := by simpa using kernel.size_coeffs }

/-- The kernel whose coefficient in column `i` and row `j` is `row[i] * col[j]`. An empty factor
stands for the single coefficient `one`. -/
def outer (one : κ) (times : κ → κ → Check κ) (row col : List κ) : Check (Kernel κ) := do
  let cols := max 1 row.length
  let rows := max 1 col.length
  let coeffs ← tabulate (fun c => times (row.getD (c % cols) one) (col.getD (c / cols) one))
    (cols * rows)
  return {
    cols, rows
    coeffs := coeffs.toArray
    cols_pos := by omega
    rows_pos := by omega
    size_coeffs := coeffs.size_toArray }

end Kernel

end ImageViews
