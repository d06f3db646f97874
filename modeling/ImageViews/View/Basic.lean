import ImageViews.Tiler.Separable

/-!
# Views

A view is a lazily evaluated image: stored pixels, or a crop, an extension or a filter of another
view. It is read in two ways. Its sampler evaluates single pixels and keeps the kernels that this
needs; its tiler paints boxes and keeps nothing. Both are given by recursion on the view, one
combinator for each kind of view.
-/
namespace ImageViews

/-- Whether an image was given or is the result of an evaluation. -/
inductive Provenance
  | given
  | computed
  deriving DecidableEq, Repr

inductive View (A : Arithmetic) : A.Pixel → Type
  | image {p : A.Pixel} (pixels : Image (A.Value p)) (provenance : Provenance) : View A p
  | strided {p : A.Pixel} (grid : Strided (A.Value p)) : View A p
  | crop {p : A.Pixel} (child : View A p) (x0 y0 : Int) (cols rows : Nat) : View A p
  | extend {p : A.Pixel} (child : View A p) (border : Border) : View A p
  /-- Without a border the child must hold every pixel that is read. -/
  | convolve {p : A.Pixel} {k : A.Coeff} {q : A.Pixel} (child : View A p)
    (h : A.product p k = some q) (kernel : Kernel (A.Factor k))
    (anchor : Anchor kernel.cols kernel.rows) (border : Option Border) : View A q
  | separable {p : A.Pixel} {k : A.Coeff} {q : A.Pixel} (child : View A p)
    (h : A.product p k = some q) (row col : List (A.Factor k))
    (anchor : Anchor (max 1 row.length) (max 1 col.length)) (border : Border) : View A q

namespace View

variable {A : Arithmetic}

/-- The kernels that the point accesses of a view keep: a slot for each separable filter. -/
def Memo : {p : A.Pixel} → View A p → Type
  | _, image .. | _, strided .. => Unit
  | _, crop child .. | _, extend child _ | _, convolve child .. => child.Memo
  | _, separable (k := k) child .. => Option (Kernel (A.Factor k)) × child.Memo

def Memo.empty : {p : A.Pixel} → (v : View A p) → v.Memo
  | _, image .. | _, strided .. => ()
  | _, crop child .. | _, extend child _ | _, convolve child .. => Memo.empty child
  | _, separable child .. => (none, Memo.empty child)

def sampler : {p : A.Pixel} → (v : View A p) → Sampler (Trail v.Memo) (A.Value p)
  | _, image pixels _ => .image pixels
  | _, strided grid => .strided grid
  | _, crop child x0 y0 cols rows => child.sampler.crop x0 y0 cols rows
  | p, extend child border => child.sampler.extend border (A.blank p)
  | _, convolve child h kernel anchor border => child.sampler.convolve h kernel anchor border
  | _, separable child h row col anchor border => child.sampler.separable h row col anchor border

def tiler : {p : A.Pixel} → View A p → Tiler (A.Value p)
  | _, image pixels _ => .image pixels
  | _, strided grid => .strided grid
  | _, crop child x0 y0 cols rows => child.tiler.crop x0 y0 cols rows
  | p, extend child border => child.tiler.extended border (A.storage p)
  | _, convolve child h kernel anchor border => child.tiler.convolve h kernel anchor border
  | _, separable child h row col anchor border => child.tiler.separable h row col anchor border

end View

end ImageViews
