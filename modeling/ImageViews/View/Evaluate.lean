import ImageViews.View.Basic

/-!
# Evaluation of views

Point access goes through the sampler of a view, whole boxes through its tiler. Prerasterizing
evaluates once what the pixels of a box depend on: the result is a view of the same pixels that
reads stored cells, in the coordinates of the view it comes from. Only the box asked for is sure to
be there.
-/
namespace ImageViews.View

variable {A : Arithmetic} {p : A.Pixel} {n : Nat}

def cols (v : View A p) : Nat := v.tiler.cols
def rows (v : View A p) : Nat := v.tiler.rows
def planes (v : View A p) : Nat := v.tiler.planes

def bounds (v : View A p) : Box := v.tiler.bounds

def get (v : View A p) (x y : Int) (plane : Nat) : Probe (Trail v.Memo) (A.Value p) :=
  v.sampler.get x y plane

/-- The pixel at any coordinates, read through a border. -/
def pixel (v : View A p) (border : Border) (x y : Int) (plane : Nat) :
    Probe (Trail v.Memo) (A.Value p) :=
  border.pixel v.sampler (A.blank p) x y plane

def rasterize (v : View A p) (handle : Handle n) (box : Box) : Paint Log (A.Value p) n Unit :=
  v.tiler.rasterize handle box

/-- Paints a box into a destination of its extent, one point access after the other. -/
def paint (v : View A p) (handle : Handle n) (box : Box) :
    Paint (Trail v.Memo) (A.Value p) n Unit :=
  v.sampler.paint handle box

def region (v : View A p) (box : Box) : Render (Image (A.Value p)) :=
  v.tiler.region (A.storage p) box

def toImage (v : View A p) : Render (Image (A.Value p)) := v.region v.bounds

/-- The image of any box, extended by a border. -/
def extendedRegion (v : View A p) (border : Border) (box : Box) : Render (Image (A.Value p)) :=
  v.tiler.extend border (A.storage p) box

/-- The view of a patch over the extent that it was taken from. -/
def ofPatch (patch : Tiler.Patch (A.Value p)) (cols rows : Nat) : View A p :=
  .crop (.image patch.image .computed) patch.dx patch.dy cols rows

def prerasterize : {p : A.Pixel} → View A p → Box → Render (View A p)
  | _, image pixels _, _ => do
    let grid ← pixels.strided
    return .strided grid
  | _, strided grid, _ => return .strided grid
  | _, crop child x0 y0 cols rows, box => do
    let moved ← box.translate x0 y0
    let child ← child.prerasterize moved
    return .crop child x0 y0 cols rows
  | _, extend child border, box => do
    let image ← child.extendedRegion border box
    let patch ← Tiler.Patch.ofBox image box
    return ofPatch patch child.cols child.rows
  | _, convolve child h kernel anchor border, box => do
    let patch ← child.tiler.windowsPatch anchor border box
    return .convolve (ofPatch patch child.cols child.rows) h kernel anchor none
  | p, separable child h row col anchor border, box => do
    let image ← Image.render (A.storage p) box.width box.height child.planes
      (child.tiler.separablePasses h row col anchor border · box)
    let patch ← Tiler.Patch.ofBox image box
    return ofPatch patch child.cols child.rows

/-- The dense kernel of a separable filter, if the view is one. -/
def outerKernel? : {p : A.Pixel} → (v : View A p) →
    Option (Σ k : A.Coeff, Probe (Trail v.Memo) (Kernel (A.Factor k)))
  | _, separable (k := k) _ _ row col _ _ => some ⟨k, Sampler.outerKernel row col⟩
  | _, _ => none

end ImageViews.View
