import ImageViews.Kernel.Factor
import ImageViews.View.Basic

/-!
# Filters

Filters are built with their anchor at the middle of the kernel or at a given coefficient, which
then has to lie inside. The named filters have single precision coefficients; `ofFloat` embeds them
in a coefficient kind of the arithmetic at hand.
-/
namespace ImageViews

inductive AnchorError
  | outsideKernel (col row cols rows : Nat)
  | outsideRow (col : Nat)
  | outsideColumn (row : Nat)
  deriving DecidableEq, Repr

def AnchorError.message : AnchorError → String
  | outsideKernel col row cols rows =>
    s!"kernel origin ({col}, {row}) outside a {cols}x{rows} kernel"
  | outsideRow col => s!"row origin {col} outside the row factor"
  | outsideColumn row => s!"column origin {row} outside the column factor"

namespace View

variable {A : Arithmetic} {p : A.Pixel} {k : A.Coeff} {q : A.Pixel}

/-- The convolution with a kernel anchored at its middle. -/
def convolution (child : View A p) (h : A.product p k = some q) (kernel : Kernel (A.Factor k))
    (border : Border) : View A q :=
  .convolve child h kernel kernel.center (some border)

/-- The convolution with a kernel anchored at a given coefficient. -/
def convolutionAt (child : View A p) (h : A.product p k = some q) (kernel : Kernel (A.Factor k))
    (col row : Nat) (border : Border) : Except AnchorError (View A q) :=
  if inside : col < kernel.cols ∧ row < kernel.rows then
    let anchor := { col, row, col_lt := inside.1, row_lt := inside.2 }
    .ok (.convolve child h kernel anchor (some border))
  else
    .error (.outsideKernel col row kernel.cols kernel.rows)

/-- The convolution with two factors anchored at their middles. -/
def separableConvolution (child : View A p) (h : A.product p k = some q)
    (row col : List (A.Factor k)) (border : Border) : View A q :=
  .separable child h row col
    { col := (row.length - 1) / 2
      row := (col.length - 1) / 2
      col_lt := by omega
      row_lt := by omega }
    border

/-- The convolution with two factors anchored at given coefficients. An empty factor has its anchor
at zero. -/
def separableConvolutionAt (child : View A p) (h : A.product p k = some q)
    (row col : List (A.Factor k)) (i j : Nat) (border : Border) : Except AnchorError (View A q) :=
  if hi : i < max 1 row.length then
    if hj : j < max 1 col.length then
      .ok (.separable child h row col { col := i, row := j, col_lt := hi, row_lt := hj } border)
    else
      .error (.outsideColumn j)
  else
    .error (.outsideRow i)

variable (ofFloat : Float32 → A.Factor k)

def boxBlur (child : View A p) (h : A.product p k = some q) (cols rows : Nat) (border : Border) :
    Except Failure (View A q) := do
  let row ← Factor.box cols
  let col ← Factor.box rows
  return child.separableConvolution h (row.map ofFloat) (col.map ofFloat) border

def gaussianBlur (child : View A p) (h : A.product p k = some q) (cols rows : Nat)
    (sigmaX sigmaY : Float32) (border : Border) : Except Failure (View A q) := do
  let row ← Factor.gaussian cols sigmaX
  let col ← Factor.gaussian rows sigmaY
  return child.separableConvolution h (row.map ofFloat) (col.map ofFloat) border

/-- The derivative along the rows, positive where the pixels grow with `x`. A convolution reads its
factors reversed, so the derivative factor is reversed first. -/
def sobelX (child : View A p) (h : A.product p k = some q) (size : Nat) (border : Border) :
    Except Failure (View A q) := do
  let (derivative, smooth) ← Factor.sobel size
  return child.separableConvolution h (derivative.reverse.map ofFloat) (smooth.map ofFloat) border

/-- The derivative along the columns, positive where the pixels grow with `y`. -/
def sobelY (child : View A p) (h : A.product p k = some q) (size : Nat) (border : Border) :
    Except Failure (View A q) := do
  let (derivative, smooth) ← Factor.sobel size
  return child.separableConvolution h (smooth.map ofFloat) (derivative.reverse.map ofFloat) border

def laplacian (child : View A p) (h : A.product p k = some q) (border : Border) : View A q :=
  child.convolution h (Factor.laplacian.map ofFloat) border

end View

end ImageViews
