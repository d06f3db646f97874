import ImageViews.Decimal.Shortest

/-!
# Failures

Requests fail in two ways. An `ImageError` refuses a request whose parts do not fit together and
names them. A `Fault` says that an evaluation left the range in which it is defined: a coordinate
outside its word, a cell outside its buffer, an empty range to clamp into. A `Check` is a
computation that can only fault.
-/
namespace ImageViews

inductive ImageError
  | dataLength (actual expected : Nat)
  | destinationSize (cols rows width height : Nat)
  | destinationPlanes (actual expected : Nat)
  | kernelSize (cols rows coefficients : Nat)
  | kernelLength (length : Nat)
  | gaussianSigma (sigma : Float)
  | planeIndex (plane planes : Nat)

def ImageError.message : ImageError → String
  | .dataLength actual expected =>
    s!"Data length ({actual}) does not match the image size ({expected})"
  | .destinationSize cols rows width height =>
    s!"Destination size ({cols}x{rows}) does not match the region size ({width}x{height})"
  | .destinationPlanes actual expected =>
    s!"Destination planes ({actual}) does not match the view planes ({expected})"
  | .kernelSize cols rows coefficients =>
    s!"Invalid kernel size: {cols}x{rows} with {coefficients} coefficients"
  | .kernelLength length => s!"Invalid kernel length: {length}"
  | .gaussianSigma sigma => s!"Invalid gaussian sigma: {Decimal.text sigma}"
  | .planeIndex plane planes => s!"Plane index {plane} is out of bounds ({planes})"

inductive Fault
  | overflow
  /-- An integer product, sum or coefficient does not fit the kind of its pixels. -/
  | pixelOverflow
  | outOfBounds
  /-- A remainder by a period of zero. -/
  | zeroPeriod
  | emptyRange
  | windowOutside
  | shortBuffer
  | capacity
  /-- A source and a destination of a one-dimensional pass whose extents do not match. -/
  | passShape
  deriving DecidableEq, Repr

inductive Failure
  | error (cause : ImageError)
  | fault (cause : Fault)

abbrev Check := Except Fault

def Check.require (condition : Prop) [Decidable condition] (fault : Fault) : Check Unit :=
  if condition then .ok () else .error fault

@[simp] theorem Check.require_eq_ok {condition : Prop} [Decidable condition] {fault : Fault} :
    Check.require condition fault = .ok () ↔ condition := by
  unfold Check.require
  split <;> simp_all

instance : MonadLift Check (Except Failure) where
  monadLift
    | .ok a => .ok a
    | .error fault => .error (.fault fault)

end ImageViews
