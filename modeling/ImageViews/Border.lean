import ImageViews.Word

/-!
# Borders

A border gives meaning to the coordinates outside an axis of `len` pixels. Except for `zero`,
which stands for blank pixels, it maps every coordinate to an index of the axis in closed form:
a mirror is periodic, so one remainder replaces the reflections.
-/
namespace ImageViews

/-- What lies outside an image. Around the axis `a b c d` stand blank pixels, or `a a | d d`,
`b a | d c`, `c b | c b` and `c d | a b`. -/
inductive Border
  | zero
  | replicate
  | reflect
  | reflect101
  | wrap
  deriving DecidableEq, Repr, Inhabited

namespace Border

/-- The remainder of `i` on division by `period`, which is never negative. -/
def remainder (i period : Int) : Check Int := do
  Check.require (period ≠ 0) .zeroPeriod
  Check.require (¬(i = Coordinate.least ∧ period = -1)) .overflow
  return i % period

/-- The mirrored axis repeats after twice its length. -/
def reflectIndex (i : Int) (len : Nat) : Check Nat := do
  if len = 1 then
    return 0
  let side := Coordinate.ofExtent len
  let period ← Coordinate.mul 2 side
  let m ← remainder i period
  if m < side then
    return Extent.ofCoordinate m
  let last ← Coordinate.sub period 1
  return Extent.ofCoordinate (← Coordinate.sub last m)

/-- The edge pixels are not repeated, so the period is two shorter. -/
def reflect101Index (i : Int) (len : Nat) : Check Nat := do
  if len = 1 then
    return 0
  let side := Coordinate.ofExtent len
  let period ← Coordinate.sub (← Coordinate.mul 2 side) 2
  let m ← remainder i period
  if m < side then
    return Extent.ofCoordinate m
  return Extent.ofCoordinate (← Coordinate.sub period m)

def wrapIndex (i : Int) (len : Nat) : Check Nat := do
  return Extent.ofCoordinate (← remainder i (Coordinate.ofExtent len))

def clampIndex (i : Int) (len : Nat) : Check Nat := do
  let last ← Coordinate.sub (Coordinate.ofExtent len) 1
  Check.require (0 ≤ last) .emptyRange
  return Extent.ofCoordinate (max 0 (min i last))

/-- The index of an axis of `len` pixels that stands for the coordinate `i`. For `zero` it is the
nearest one, although that border shows no pixel there. -/
def index : Border → Int → Nat → Check Nat
  | reflect => reflectIndex
  | reflect101 => reflect101Index
  | wrap => wrapIndex
  | replicate | zero => clampIndex

end Border

end ImageViews
