import ImageViews.Word

/-!
# Boxes

A box is a rectangle of pixels, given by its top left corner and its extent. It covers the
columns from `x` up to but not including `x + width`, and the rows likewise. Its corner may be
negative, as for a region that extends past an image.
-/
namespace ImageViews

structure Box where
  x : Int := 0
  y : Int := 0
  width : Nat := 0
  height : Nat := 0
  deriving DecidableEq, Repr, Inhabited

namespace Box

/-- The box from an inclusive to an exclusive corner; empty along an axis whose corners are
inverted. -/
def ofCorners (low high : Int × Int) : Check Box := do
  let width ← Coordinate.sub high.1 low.1
  let height ← Coordinate.sub high.2 low.2
  return { x := low.1, y := low.2, width := width.toNat, height := height.toNat }

def low (b : Box) : Int × Int := (b.x, b.y)

def high (b : Box) : Check (Int × Int) := do
  let x ← Coordinate.add b.x (Coordinate.ofExtent b.width)
  let y ← Coordinate.add b.y (Coordinate.ofExtent b.height)
  return (x, y)

def IsEmpty (b : Box) : Prop := b.width = 0 ∨ b.height = 0

instance (b : Box) : Decidable b.IsEmpty := inferInstanceAs (Decidable (_ ∨ _))

def contains (b : Box) (x y : Int) : Check Bool := do
  let high ← b.high
  return b.x ≤ x && b.y ≤ y && x < high.1 && y < high.2

/-- Whether the corners of `other` lie between the corners of the box. -/
def containsBox (b other : Box) : Check Bool := do
  let high ← b.high
  let otherHigh ← other.high
  return b.x ≤ other.x && b.y ≤ other.y && otherHigh.1 ≤ high.1 && otherHigh.2 ≤ high.2

def translate (b : Box) (dx dy : Int) : Check Box := do
  let x ← Coordinate.add b.x dx
  let y ← Coordinate.add b.y dy
  return { b with x, y }

/-- The common pixels of two boxes, if there are any. -/
def intersect (b other : Box) : Check (Option Box) := do
  let high ← b.high
  let otherHigh ← other.high
  let common ← ofCorners (max b.x other.x, max b.y other.y)
    (min high.1 otherHigh.1, min high.2 otherHigh.2)
  return if common.IsEmpty then none else some common

def grow (b : Box) (left top right bottom : Nat) : Check Box := do
  let x ← Coordinate.sub b.x (Coordinate.ofExtent left)
  let y ← Coordinate.sub b.y (Coordinate.ofExtent top)
  let width ← Extent.add (← Extent.add b.width left) right
  let height ← Extent.add (← Extent.add b.height top) bottom
  return { x, y, width, height }

def ofExtent (cols rows : Nat) : Box := { width := cols, height := rows }

end Box

end ImageViews
