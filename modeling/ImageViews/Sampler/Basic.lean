import ImageViews.Cursor
import ImageViews.Image.Strided
import ImageViews.Probe

/-!
# Samplers

A sampler gives access to single pixels: at coordinates, or through a cursor that starts at the
first pixel. Stored pixels have cursors that keep an offset; a sampler of computed pixels has
cursors that keep a position and evaluates the pixel there. A crop moves the coordinates and the
start of the cursor of the sampler it is cut from, and is otherwise the same sampler.
-/
namespace ImageViews

structure Sampler (σ α : Type) where
  cols : Nat
  rows : Nat
  planes : Nat
  get : Int → Int → Nat → Probe σ α
  addressing : Addressing
  /-- The place of column 0, row 0, plane 0. -/
  origin : Check addressing.Place
  read : addressing.Place → Probe σ α

namespace Sampler

variable {σ α : Type}

/-- The place of a pixel, reached from the origin in one move. -/
def place (s : Sampler σ α) (x y p : Int) : Check s.addressing.Place := do
  s.addressing.advance (← s.origin) x y p

def computed (cols rows planes : Nat) (get : Int → Int → Nat → Probe σ α) : Sampler σ α where
  cols
  rows
  planes
  get
  addressing := .coordinates
  origin := .ok ({} : Position)
  read (place : Position) := get place.x place.y (Extent.ofCoordinate place.p)

def strided (grid : Strided α) : Sampler σ α where
  cols := grid.cols
  rows := grid.rows
  planes := grid.planes
  get x y p := grid.get x y p
  addressing := grid.addressing
  origin := .ok (0 : Int)
  read (offset : Int) := grid.read offset

/-- The pixels of an image. Coordinates are taken as extents before the cell is looked up; cursors
are those of the strided grid of the image. -/
def image (image : Image α) : Sampler σ α where
  cols := image.cols
  rows := image.rows
  planes := image.planes
  get x y p := image.fetch (Extent.ofCoordinate x) (Extent.ofCoordinate y) p
  addressing := .strides (Coordinate.ofExtent image.planes)
    (Coordinate.ofExtent (image.cols * image.planes)) 1
  origin := do
    let _ ← image.strided
    return (0 : Int)
  read (offset : Int) := fetchCell image.cells (Extent.ofCoordinate offset)

/-- The pixels of `s` with `(x0, y0)` as first pixel. -/
def crop (s : Sampler σ α) (x0 y0 : Int) (cols rows : Nat) : Sampler σ α where
  cols
  rows
  planes := s.planes
  get x y p := do
    let x ← Coordinate.add x x0
    let y ← Coordinate.add y y0
    s.get x y p
  addressing := s.addressing
  origin := s.place x0 y0 0
  read := s.read

def besideSlot {ν μ : Type} (s : Sampler (Trail μ) α) : Sampler (Trail (ν × μ)) α where
  cols := s.cols
  rows := s.rows
  planes := s.planes
  get x y p := (s.get x y p).besideSlot
  addressing := s.addressing
  origin := s.origin
  read place := (s.read place).besideSlot

end Sampler

end ImageViews
