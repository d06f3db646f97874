import ImageViews.Border
import ImageViews.Tiler.Basic

/-!
# Tilers with a border

A box that reaches past the extent is rendered from at most one box inside it. A box inside the
extent is that box itself. Where the outside is blank, the common part is painted into a window of
a blank image. Otherwise the coordinates of every column and row are mapped to indices, the smallest
box that holds all of them is rendered, and its pixels are picked by index.
-/
namespace ImageViews.Tiler

variable {α : Type}

def indexBytes : Nat := 8

/-- The indices that stand for `length` coordinates from `first` on. -/
def borderIndices (border : Border) (first : Int) (length len : Nat) :
    Check (Vector Nat length) := do
  reserve indexBytes length
  tabulate (fun i => do border.index (← Coordinate.add first (Coordinate.ofExtent i)) len) length

def span (indices : List Nat) : Nat × Nat := (indices.min?.getD 0, indices.max?.getD 0)

/-- Paints a part of a box into the window that shows it in a destination of the box. -/
def paintPart {n : Nat} (t : Tiler α) (box part : Box) (whole : Handle n) :
    Paint Log α n Unit := do
  let left ← Coordinate.sub part.x box.x
  let top ← Coordinate.sub part.y box.y
  let window ← whole.window (Extent.ofCoordinate left) (Extent.ofCoordinate top)
    part.width part.height
  t.rasterize window part

def padded (t : Tiler α) (storage : Storage α) (box : Box) : Render (Image α) := do
  match ← box.intersect t.bounds with
  | none => Image.blank storage box.width box.height t.planes
  | some inner =>
    Image.render storage box.width box.height t.planes (t.paintPart box inner)

/-- The smallest box with the columns and rows from the first to the last ones given. -/
def spanBox (cols rows : Nat × Nat) : Check Box := do
  let right ← Coordinate.add (Coordinate.ofExtent cols.2) 1
  let bottom ← Coordinate.add (Coordinate.ofExtent rows.2) 1
  Box.ofCorners (Coordinate.ofExtent cols.1, Coordinate.ofExtent rows.1) (right, bottom)

/-- The pixel at the column and the row that `xs` and `ys` give, from an image of the columns from
`x0` on and the rows from `y0` on. -/
def pick (pixels : Image α) (xs ys : Array Nat) (x0 y0 x y p : Nat) : Check α := do
  let column ← Extent.sub (← fetchCell xs x) x0
  let row ← Extent.sub (← fetchCell ys y) y0
  pixels.fetch column row p

def mapped (t : Tiler α) (border : Border) (storage : Storage α) (box : Box) :
    Render (Image α) := do
  let xs ← borderIndices border box.x box.width t.cols
  let ys ← borderIndices border box.y box.height t.rows
  let cols := span xs.toList
  let rows := span ys.toList
  let source ← spanBox cols rows
  let pixels ← t.region storage source
  Image.generate storage.bytes box.width box.height t.planes
    (pick pixels xs.toArray ys.toArray cols.1 rows.1)

def extend (t : Tiler α) (border : Border) (storage : Storage α) (box : Box) :
    Render (Image α) := do
  if box.IsEmpty then
    Image.blank storage box.width box.height t.planes
  else if ← t.bounds.containsBox box then
    t.region storage box
  else if border = .zero ∨ t.bounds.IsEmpty then
    t.padded storage box
  else
    t.mapped border storage box

def extended (t : Tiler α) (border : Border) (storage : Storage α) : Tiler α where
  cols := t.cols
  rows := t.rows
  planes := t.planes
  rasterize handle box := do
    handle.accept box t.planes
    let image ← t.extend border storage box
    (Tiler.image image).rasterize handle (.ofExtent image.cols image.rows)

end ImageViews.Tiler
