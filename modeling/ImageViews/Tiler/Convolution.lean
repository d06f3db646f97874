import ImageViews.Sampler.Convolution
import ImageViews.Tiler.Border

/-!
# Convolution of boxes

A box is convolved by rendering the pixels that its windows cover, border included, and convolving
that image pixel by pixel without a border. The image is cropped so that it keeps the coordinates
of the source.
-/
namespace ImageViews.Tiler

variable {A : Arithmetic} {p : A.Pixel} {k : A.Coeff} {q : A.Pixel}

/-- The box that the windows around the pixels of a box cover. -/
def windowsBox {cols rows : Nat} (anchor : Anchor cols rows) (box : Box) : Check Box := do
  let x ← Coordinate.sub box.x (Coordinate.ofExtent anchor.before.1)
  let y ← Coordinate.sub box.y (Coordinate.ofExtent anchor.before.2)
  let width ← Extent.sub (← Extent.add box.width cols) 1
  let height ← Extent.sub (← Extent.add box.height rows) 1
  return { x, y, width, height }

/-- An image that shows a box in the coordinates of a larger grid. -/
structure Patch (α : Type) where
  image : Image α
  dx : Int
  dy : Int

def Patch.ofBox {α : Type} (image : Image α) (box : Box) : Check (Patch α) := do
  return { image, dx := ← Coordinate.neg box.x, dy := ← Coordinate.neg box.y }

/-- The image of a box, which has to be held by the tiler if there is no border. -/
def regionWith {α : Type} (t : Tiler α) (border : Option Border) (storage : Storage α) (box : Box) :
    Render (Image α) :=
  match border with
  | some border => t.extend border storage box
  | none => t.region storage box

def windowsPatch (t : Tiler (A.Value p)) {cols rows : Nat} (anchor : Anchor cols rows)
    (border : Option Border) (box : Box) : Render (Patch (A.Value p)) := do
  let source ← windowsBox anchor box
  let image ← t.regionWith border (A.storage p) source
  Patch.ofBox image source

def convolve (t : Tiler (A.Value p)) (h : A.product p k = some q)
    (kernel : Kernel (A.Factor k)) (anchor : Anchor kernel.cols kernel.rows)
    (border : Option Border) : Tiler (A.Value q) where
  cols := t.cols
  rows := t.rows
  planes := t.planes
  rasterize handle box := do
    handle.accept box t.planes
    Paint.record (.convolutionBox box kernel.cols kernel.rows)
    let patch ← t.windowsPatch anchor border box
    let source := (Sampler.image patch.image).crop patch.dx patch.dy t.cols t.rows
    (source.convolve h kernel anchor none).paint handle box

end ImageViews.Tiler
