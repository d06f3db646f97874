import ImageViews.Cursor
import ImageViews.Image.Basic
import ImageViews.Probe

/-!
# Destination handles

A handle lays an extent over the cells of a buffer, from a start cell on and by two signed strides,
and is what pixels are painted through. Handles are cut from the handle of a whole image by
transposing it, which exchanges the strides, and by taking a window, which moves the start; either
way the buffer stays the same, so painting through a window changes the image it belongs to.
-/
namespace ImageViews

/-- An extent laid over a buffer of `n` cells. -/
structure Handle (n : Nat) where
  start : Nat
  cols : Nat
  rows : Nat
  planes : Nat
  colStride : Int
  rowStride : Int
  start_le : start ≤ n
  deriving DecidableEq

/-- Painting into a buffer of `n` cells. The cells keep what was painted, also on failure. -/
abbrev Paint (σ α : Type) (n : Nat) := ExceptT Failure (StateM (Vector α n × σ))

instance {m : Type → Type} [Monad m] : MonadLift Check (ExceptT Failure m) where
  monadLift check := ExceptT.mk (pure (check.mapError .fault))

/-- Probing while painting leaves the cells alone. -/
instance {σ α : Type} {n : Nat} : MonadLift (Probe σ) (Paint σ α n) where
  monadLift probe := ExceptT.mk fun (cells, state) =>
    let (result, state) := probe.run.run state
    (result.mapError .fault, (cells, state))

namespace Handle

variable {σ α : Type} {n : Nat}

/-- The handle of a whole buffer that stores an extent row by row. -/
def whole (n cols rows planes : Nat) : Check (Handle n) := do
  let needed ← Image.count cols rows planes
  Check.require (needed ≤ n) .shortBuffer
  let rowLength ← Extent.mul cols planes
  return {
    start := 0
    cols, rows, planes
    colStride := Coordinate.ofExtent planes
    rowStride := Coordinate.ofExtent rowLength
    start_le := Nat.zero_le n }

def transpose (handle : Handle n) : Handle n :=
  { handle with
    cols := handle.rows
    rows := handle.cols
    colStride := handle.rowStride
    rowStride := handle.colStride }

/-- The distance of a position from the start. -/
def offset (handle : Handle n) (x y p : Nat) : Check Nat := do
  let dx ← Coordinate.mul (Coordinate.ofExtent x) handle.colStride
  let dy ← Coordinate.mul (Coordinate.ofExtent y) handle.rowStride
  let pixel ← Coordinate.add dx dy
  Extent.add (Extent.ofCoordinate pixel) p

def cell (handle : Handle n) (x y p : Nat) : Check (Fin n) := do
  let offset ← handle.offset x y p
  if h : handle.start + offset < n then return ⟨handle.start + offset, h⟩ else throw .outOfBounds

/-- The part of the handle with the given corner and extent. An empty window starts where the
handle does. -/
def window (handle : Handle n) (x y cols rows : Nat) : Check (Handle n) := do
  let right ← Extent.add x cols
  Check.require (right ≤ handle.cols) .windowOutside
  let bottom ← Extent.add y rows
  Check.require (bottom ≤ handle.rows) .windowOutside
  let offset ← if cols = 0 ∨ rows = 0 then pure 0 else handle.offset x y 0
  if h : handle.start + offset ≤ n then
    return { handle with start := handle.start + offset, cols, rows, start_le := h }
  else
    throw .outOfBounds

inductive Cut
  | transpose
  /-- The same extent over the same cells. -/
  | reborrow
  | window (x y cols rows : Nat)

def cut (handle : Handle n) : Cut → Check (Handle n)
  | .transpose => return handle.transpose
  | .reborrow => return handle
  | .window x y cols rows => handle.window x y cols rows

def cutAll (handle : Handle n) (cuts : List Cut) : Check (Handle n) := cuts.foldlM cut handle

def get (handle : Handle n) (cells : Vector α n) (x y p : Nat) : Check α := do
  let cell ← handle.cell x y p
  return getElem cells cell cell.isLt

def set (handle : Handle n) (x y p : Nat) (value : α) : Paint σ α n Unit := do
  let cell ← handle.cell x y p
  modifyThe (Vector α n × σ) fun (cells, state) => (cells.set cell value cell.isLt, state)

/-- Accepts the handle as destination for a box of a view with `planes` planes. -/
def accept (handle : Handle n) (box : Box) (planes : Nat) : Except ImageError Unit := do
  if handle.cols ≠ box.width ∨ handle.rows ≠ box.height then
    throw (.destinationSize handle.cols handle.rows box.width box.height)
  if handle.planes ≠ planes then
    throw (.destinationPlanes handle.planes planes)

def fillPlanes (handle : Handle n) (addressing : Addressing)
    (value : addressing.Place → Probe σ α) (x y : Nat) (place : addressing.Place) :
    Paint σ α n Unit :=
  sweep addressing.nextPlane (fun p place _ => do handle.set x y p (← value place))
    handle.planes 0 place ()

def fillRow (handle : Handle n) (addressing : Addressing) (value : addressing.Place → Probe σ α)
    (y : Nat) (place : addressing.Place) : Paint σ α n Unit :=
  sweep addressing.nextCol (fun x place _ => handle.fillPlanes addressing value x y place)
    handle.cols 0 place ()

/-- Paints every position of the handle in reading order. A cursor moves along, and `value`
evaluates the pixel at its place. -/
def fill (handle : Handle n) (addressing : Addressing) (start : addressing.Place)
    (value : addressing.Place → Probe σ α) : Paint σ α n Unit :=
  sweep addressing.nextRow (fun y place _ => handle.fillRow addressing value y place)
    handle.rows 0 start ()

end Handle

def Image.handle {α : Type} (image : Image α) : Check (Handle image.cells.size) :=
  Handle.whole image.cells.size image.cols image.rows image.planes

end ImageViews
