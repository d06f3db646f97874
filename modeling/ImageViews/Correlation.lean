import ImageViews.Kernel.Basic
import ImageViews.Pixel.Arithmetic
import ImageViews.Sampler.Basic

/-!
# Correlation

A correlation multiplies the pixels of a window by the coefficients of a kernel and sums the
products in reading order, starting from the empty sum. The window is walked by a cursor and is
not tested against the extent of the sampler.
-/
namespace ImageViews.Sampler

variable {A : Arithmetic} {p : A.Pixel} {k : A.Coeff} {q : A.Pixel} {σ : Type}

/-- Adds the products of the pixels from `place` on along a row with the coefficients. -/
def correlateRow (s : Sampler σ (A.Value p)) (h : A.product p k = some q) :
    List (A.Factor k) → s.addressing.Place → A.Value q → Probe σ (A.Value q)
  | [], _, sum => return sum
  | coeff :: coeffs, place, sum => do
    let pixel ← s.read place
    let product ← A.scale h pixel coeff
    let sum ← A.add sum product
    let place ← s.addressing.nextCol place
    correlateRow s h coeffs place sum

def correlate1d (s : Sampler σ (A.Value p)) (h : A.product p k = some q)
    (factor : List (A.Factor k)) (place : s.addressing.Place) : Probe σ (A.Value q) :=
  s.correlateRow h factor place (A.start q)

/-- The places of the two cursors that walk through a window and a kernel. -/
abbrev WindowPlace (s : Sampler σ (A.Value p)) : Type := s.addressing.Place × Int

def windowNextCol (s : Sampler σ (A.Value p)) (kernel : Kernel (A.Factor k))
    (orientation : Orientation) (place : s.WindowPlace) : Check s.WindowPlace := do
  return (← s.addressing.nextCol place.1, ← (kernel.addressing orientation).nextCol place.2)

def windowNextRow (s : Sampler σ (A.Value p)) (kernel : Kernel (A.Factor k))
    (orientation : Orientation) (place : s.WindowPlace) : Check s.WindowPlace := do
  return (← s.addressing.nextRow place.1, ← (kernel.addressing orientation).nextRow place.2)

/-- Adds the product of the pixel and the coefficient at the cursors. -/
def addTerm (s : Sampler σ (A.Value p)) (h : A.product p k = some q)
    (kernel : Kernel (A.Factor k)) (place : s.WindowPlace) (sum : A.Value q) :
    Probe σ (A.Value q) := do
  let pixel ← s.read place.1
  let coeff ← kernel.read place.2
  let product ← A.scale h pixel coeff
  A.add sum product

def addLine (s : Sampler σ (A.Value p)) (h : A.product p k = some q)
    (kernel : Kernel (A.Factor k)) (orientation : Orientation) (place : s.WindowPlace)
    (sum : A.Value q) : Probe σ (A.Value q) :=
  sweep (s.windowNextCol kernel orientation) (fun _ place sum => s.addTerm h kernel place sum)
    kernel.cols 0 place sum

/-- The sum of the products of a kernel with the window that starts at `place`. The cursors of the
window and of the kernel move together. -/
def correlate2d (s : Sampler σ (A.Value p)) (h : A.product p k = some q)
    (kernel : Kernel (A.Factor k)) (orientation : Orientation) (place : s.addressing.Place) :
    Probe σ (A.Value q) :=
  sweep (s.windowNextRow kernel orientation)
    (fun _ place sum => s.addLine h kernel orientation place sum)
    kernel.rows 0 (place, kernel.start orientation) (A.start q)

end ImageViews.Sampler
