import ImageViews.Tiler.Convolution

/-!
# Separable convolution of boxes

A separable filter is applied in two passes of one-dimensional correlations: the row factor along
the rows of the source, then the column factor along the columns of the result, which are the rows
of the transposed grids. An empty factor leaves its axis untouched; without any factor the pixels
are only multiplied by one, to give them the kind of the product.
-/
namespace ImageViews.Tiler

variable {A : Arithmetic} {p : A.Pixel} {k : A.Coeff} {q : A.Pixel} {n : Nat}

/-- Correlates the rows of a grid with a reversed factor. The grid is wider than the destination by
one less than the length of the factor. -/
def convolveRows (grid : Strided (A.Value p)) (h : A.product p k = some q)
    (factor : List (A.Factor k)) (handle : Handle n) : Paint Log (A.Value q) n Unit := do
  let read ← Extent.add grid.cols 1
  let needed ← Extent.add handle.cols factor.length
  Check.require (read = needed) .passShape
  Check.require (grid.rows = handle.rows) .passShape
  let source : Sampler Log (A.Value p) := .strided grid
  handle.fill source.addressing (0 : Int) (source.correlate1d h factor.reverse)

/-- The box that the windows around the pixels of a box cover. -/
def growBox {cols rows : Nat} (anchor : Anchor cols rows) (box : Box) : Check Box :=
  box.grow anchor.before.1 anchor.before.2 anchor.after.1 anchor.after.2

def separablePasses (t : Tiler (A.Value p)) (h : A.product p k = some q)
    (row col : List (A.Factor k)) (anchor : Anchor (max 1 row.length) (max 1 col.length))
    (border : Border) (handle : Handle n) (box : Box) : Paint Log (A.Value q) n Unit := do
  if row.isEmpty && col.isEmpty then
    let source ← t.extend border (A.storage p) box
    handle.fill .coordinates ({} : Position) fun (place : Position) => do
      let pixel ← source.fetch (Extent.ofCoordinate place.x) (Extent.ofCoordinate place.y)
        (Extent.ofCoordinate place.p)
      A.scale h pixel (A.one k)
  else
    let sourceBox ← growBox anchor box
    let source ← t.extend border (A.storage p) sourceBox
    if col.isEmpty then
      convolveRows (← source.strided) h row handle
    else if row.isEmpty then
      convolveRows (← source.strided).transpose h col handle.transpose
    else
      let lines ← Image.render (A.storage q) box.width sourceBox.height t.planes fun whole => do
        convolveRows (← source.strided) h row whole
      convolveRows (← lines.strided).transpose (A.product_closed h) col handle.transpose

def separable (t : Tiler (A.Value p)) (h : A.product p k = some q) (row col : List (A.Factor k))
    (anchor : Anchor (max 1 row.length) (max 1 col.length)) (border : Border) :
    Tiler (A.Value q) where
  cols := t.cols
  rows := t.rows
  planes := t.planes
  rasterize handle box := do
    handle.accept box t.planes
    Paint.record (.separableBox box row.length col.length)
    t.separablePasses h row col anchor border handle box

end ImageViews.Tiler
