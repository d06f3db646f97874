import ImageViews.Box

/-!
# Records

Evaluation leaves records of the expensive things it does: building the dense kernel of a
separable filter, and rasterizing a box through a filter. A log is the list of records in the
order in which they were left.
-/
namespace ImageViews

inductive Record
  | kernelBuilt (cols rows : Nat)
  | separableBox (box : Box) (rowTaps colTaps : Nat)
  | convolutionBox (box : Box) (cols rows : Nat)
  deriving DecidableEq, Repr

/-- Records in order, the oldest first. -/
abbrev Log := List Record

def Box.text (b : Box) : String :=
  s!"BBox2i \x7b x: {b.x}, y: {b.y}, width: {b.width}, height: {b.height} \x7d"

def Record.line : Record → String
  | kernelBuilt cols rows =>
    s!"DEBUG separable convolution: building the {cols}x{rows} outer product kernel"
  | separableBox box rowTaps colTaps =>
    s!"TRACE separable convolution: rasterizing {box.text} with {rowTaps}+{colTaps} taps"
  | convolutionBox box cols rows =>
    s!"TRACE convolution: rasterizing {box.text} with a {cols}x{rows} kernel"

end ImageViews
