import ImageViews.Kernel.Basic

/-!
# Factors of filters

The one-dimensional coefficients of the usual filters, in single precision. Box and gaussian
factors sum to one up to rounding; the gaussian is sampled at the middle of each coefficient and
then divided by the sum of the samples.
-/
namespace ImageViews.Factor

def ofExtent (n : Nat) : Float32 := n.toUInt64.toFloat32

def coeffBytes : Nat := 4

def box (size : Nat) : Except Failure (List Float32) := do
  if size = 0 then
    throw (.error (.kernelLength size))
  reserve coeffBytes size
  return List.replicate size (1 / ofExtent size)

/-- The gaussian bell at the distance of coefficient `i` from the middle, not yet normalized. -/
def bell (size : Nat) (sigma : Float32) (i : Nat) : Float32 :=
  let x := ofExtent i - ofExtent (size - 1) / 2
  (-(x * x) / (2 * (sigma * sigma))).exp

/-- The normalized gaussian of a positive sigma. -/
def gaussian (size : Nat) (sigma : Float32) : Except Failure (List Float32) := do
  if size = 0 then
    throw (.error (.kernelLength size))
  if sigma.isNaN || sigma ≤ 0 then
    throw (.error (.gaussianSigma sigma.toFloat))
  reserve coeffBytes size
  let samples := (List.range size).map (bell size sigma)
  let norm := samples.foldl (· + ·) 0
  return samples.map (· / norm)

/-- The derivative and the smoothing factor of the sobel operator, in the order in which a
correlation reads them. -/
def sobel : Nat → Except Failure (List Float32 × List Float32)
  | 3 => .ok ([-1, 0, 1], [1, 2, 1])
  | 5 => .ok ([-1, -2, 0, 2, 1], [1, 4, 6, 4, 1])
  | size => .error (.error (.kernelLength size))

def laplacian : Kernel Float32 where
  cols := 3
  rows := 3
  coeffs := #[0, 1, 0, 1, -4, 1, 0, 1, 0]
  cols_pos := by decide
  rows_pos := by decide
  size_coeffs := rfl

end ImageViews.Factor
