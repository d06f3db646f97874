import ImageViews.Correlation
import ImageViews.Sampler.Border

/-!
# Convolution of a sampler

The convolution of a sampler correlates the rotated kernel with the window around each pixel. A
window that lies inside the extent is read directly; another one is read through the border. With
no border every window is read directly, and must then be covered by the sampler.

A separable filter has the outer product of two factors as its kernel. The kernel is built when
the first pixel is asked for and kept in a slot of the memo.
-/
namespace ImageViews.Sampler

variable {A : Arithmetic} {p : A.Pixel} {k : A.Coeff} {q : A.Pixel} {σ : Type}

/-- Whether the window around `(x, y)` of a kernel of the given extent, with `before` coefficients
ahead of the anchor, lies inside the extent of the sampler. -/
def covers {α : Type} (s : Sampler σ α) (kernelCols kernelRows : Nat) (before : Int × Int)
    (x y : Int) : Check Bool := do
  if x < before.1 ∨ y < before.2 then
    return false
  let right ← Coordinate.sub (Coordinate.ofExtent s.cols) (Coordinate.ofExtent kernelCols)
  let right ← Coordinate.add right before.1
  if right < x then
    return false
  let bottom ← Coordinate.sub (Coordinate.ofExtent s.rows) (Coordinate.ofExtent kernelRows)
  let bottom ← Coordinate.add bottom before.2
  return y ≤ bottom

/-- The correlation of the rotated kernel with the window that has `before` columns and rows ahead
of the pixel. -/
def correlateWindow (s : Sampler σ (A.Value p)) (h : A.product p k = some q)
    (kernel : Kernel (A.Factor k)) (before : Int × Int) (x y : Int) (plane : Nat) :
    Probe σ (A.Value q) := do
  let left ← Coordinate.sub x before.1
  let top ← Coordinate.sub y before.2
  let place ← s.place left top (Coordinate.ofExtent plane)
  s.correlate2d h kernel .rotated place

def convolveAt (s : Sampler σ (A.Value p)) (h : A.product p k = some q)
    (kernel : Kernel (A.Factor k)) {cols rows : Nat} (anchor : Anchor cols rows)
    (border : Option Border) (x y : Int) (plane : Nat) : Probe σ (A.Value q) := do
  let before := (Coordinate.ofExtent anchor.before.1, Coordinate.ofExtent anchor.before.2)
  let inside ← s.covers kernel.cols kernel.rows before x y
  match border, inside with
  | some border, false =>
    (s.extend border (A.blank p)).correlateWindow h kernel before x y plane
  | _, _ => s.correlateWindow h kernel before x y plane

def convolve (s : Sampler σ (A.Value p)) (h : A.product p k = some q)
    (kernel : Kernel (A.Factor k)) (anchor : Anchor kernel.cols kernel.rows)
    (border : Option Border) : Sampler σ (A.Value q) :=
  .computed s.cols s.rows s.planes (s.convolveAt h kernel anchor border)

/-- The outer product of two factors, taken from its slot, or built and kept there. Building it
leaves a record, also when a product faults and nothing is kept. -/
def outerKernel {μ : Type} (row col : List (A.Factor k)) :
    Probe (Trail (Option (Kernel (A.Factor k)) × μ)) (Kernel (A.Factor k)) := do
  let trail ← MonadState.get
  match trail.memo.1 with
  | some kernel => return kernel
  | none =>
    let built := Record.kernelBuilt (max 1 row.length) (max 1 col.length)
    modify fun trail => { trail with log := trail.log ++ [built] }
    let kernel ← Kernel.outer (A.one k) A.times row col
    modify fun trail => { trail with memo := (some kernel, trail.memo.2) }
    return kernel

def separable {μ : Type} (s : Sampler (Trail μ) (A.Value p)) (h : A.product p k = some q)
    (row col : List (A.Factor k)) (anchor : Anchor (max 1 row.length) (max 1 col.length))
    (border : Border) :
    Sampler (Trail (Option (Kernel (A.Factor k)) × μ)) (A.Value q) :=
  .computed s.cols s.rows s.planes fun x y plane => do
    let kernel ← outerKernel row col
    s.besideSlot.convolveAt h kernel anchor (some border) x y plane

end ImageViews.Sampler
