import ImageViews.Image.Strided
import ImageViews.Render
import ImageViews.Sampler.Basic

/-!
# Tilers

A tiler gives access to whole boxes of pixels, painted into a destination whose extent matches the
box. Unlike a sampler it never asks for the kernels of lazy evaluation: its state is the log alone.
Any sampler whose state is the log paints a box pixel by pixel; that is how stored pixels are
copied. A crop moves the box and leaves the rest to the tiler it is cut from, the destination check
included.
-/
namespace ImageViews

structure Tiler (α : Type) where
  cols : Nat
  rows : Nat
  planes : Nat
  rasterize : {n : Nat} → Handle n → Box → Paint Log α n Unit

/-- Paints the pixels of a box one after the other. -/
def Sampler.paint {σ α : Type} {n : Nat} (s : Sampler σ α) (handle : Handle n) (box : Box) :
    Paint σ α n Unit := do
  handle.accept box s.planes
  let start ← s.place box.x box.y 0
  handle.fill s.addressing start s.read

namespace Tiler

variable {α : Type}

def bounds (t : Tiler α) : Box := .ofExtent t.cols t.rows

/-- The image of a box. -/
def region (t : Tiler α) (storage : Storage α) (box : Box) : Render (Image α) :=
  Image.render storage box.width box.height t.planes (t.rasterize · box)

def strided (grid : Strided α) : Tiler α where
  cols := grid.cols
  rows := grid.rows
  planes := grid.planes
  rasterize handle box := (Sampler.strided grid).paint handle box

def image (image : Image α) : Tiler α where
  cols := image.cols
  rows := image.rows
  planes := image.planes
  rasterize handle box := do
    let grid ← image.strided
    (Sampler.strided grid).paint handle box

/-- The boxes of `t` with `(x0, y0)` as first pixel. -/
def crop (t : Tiler α) (x0 y0 : Int) (cols rows : Nat) : Tiler α where
  cols
  rows
  planes := t.planes
  rasterize handle box := do
    let moved ← box.translate x0 y0
    t.rasterize handle moved

end Tiler

end ImageViews
