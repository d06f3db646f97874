import ImageViews.Cells

/-!
# Images

An image stores its pixels row by row, the planes of a pixel side by side, so its cells are as
many as its columns, rows and planes multiply to. A position is looked up either with a test of
all three coordinates, or by its linear index alone, which then only has to fall into the cells.
-/
namespace ImageViews

/-- Pixels of `cols` columns, `rows` rows and `planes` planes. -/
structure Image (α : Type) where
  cols : Nat
  rows : Nat
  planes : Nat
  cells : Array α
  size_cells : cells.size = cols * rows * planes

namespace Image

variable {α β : Type}

@[ext]
theorem ext {a b : Image α} (cols : a.cols = b.cols) (rows : a.rows = b.rows)
    (planes : a.planes = b.planes) (cells : a.cells = b.cells) : a = b := by
  cases a; cases b; simp_all

instance [BEq α] : BEq (Image α) where
  beq a b := a.cols == b.cols && a.rows == b.rows && a.planes == b.planes && a.cells == b.cells

def count (cols rows planes : Nat) : Check Nat := do
  Extent.mul (← Extent.mul cols rows) planes

def allocate (bytes cols rows planes : Nat) : Check Unit := do
  let cells ← count cols rows planes
  reserve bytes cells

def ofCells (cols rows planes : Nat) (cells : Array α) : Except Failure (Image α) := do
  let expected ← count cols rows planes
  if h : cells.size = cols * rows * planes then
    return { cols, rows, planes, cells, size_cells := h }
  else
    throw (.error (.dataLength cells.size expected))

def ofVector {cols rows planes : Nat} (cells : Vector α (cols * rows * planes)) : Image α :=
  { cols, rows, planes, cells := cells.toArray, size_cells := cells.size_toArray }

/-- The image whose every pixel is `value`, which takes the given number of bytes. -/
def replicate (bytes cols rows planes : Nat) (value : α) : Check (Image α) := do
  allocate bytes cols rows planes
  return ofVector (Vector.replicate (cols * rows * planes) value)

/-- The image without content. -/
def blank (storage : Storage α) (cols rows planes : Nat) : Check (Image α) :=
  replicate storage.bytes cols rows planes storage.blank

/-- Appends the values of all pixels, row by row and the planes of a pixel side by side. -/
def appendPixels (f : Nat → Nat → Nat → Check α) (cols rows planes : Nat) : Check (Array α) :=
  appendBlocks (fun y => appendBlocks (fun x => appendCells (f x y) planes 0) cols 0) rows 0 #[]

/-- The values are appended in the order of their linear indices. -/
theorem appendPixels_eq (f : Nat → Nat → Nat → Check α) (cols rows planes : Nat) :
    appendPixels f cols rows planes =
      appendCells (fun i => f (i / planes % cols) (i / planes / cols) (i % planes))
        (cols * rows * planes) 0 #[] := by
  have line (y : Nat) (cells : Array α) :
      appendBlocks (fun x => appendCells (f x y) planes 0) cols 0 cells =
        appendCells (fun i => f (i / planes) y (i % planes)) (cols * planes) (0 * planes) cells :=
    appendBlocks_eq (fun _ _ => rfl) cols 0 cells
  have count : rows * (cols * planes) = cols * rows * planes := by
    rw [← Nat.mul_assoc, Nat.mul_comm rows]
  have col (i : Nat) : i % (cols * planes) / planes = i / planes % cols := by
    rw [Nat.mul_comm, Nat.mod_mul_right_div_self]
  have row (i : Nat) : i / (cols * planes) = i / planes / cols := by
    rw [Nat.mul_comm, Nat.div_div_eq_div_mul]
  have plane (i : Nat) : i % (cols * planes) % planes = i % planes := Nat.mod_mul_left_mod _ _ _
  simp only [Nat.zero_mul] at line
  rw [appendPixels, appendBlocks_eq line, Nat.zero_mul, count]
  simp only [col, row, plane]

theorem size_of_appendPixels {f : Nat → Nat → Nat → Check α} {cols rows planes : Nat}
    {cells : Array α} (h : appendPixels f cols rows planes = .ok cells) :
    cells.size = cols * rows * planes := by
  rw [appendPixels_eq] at h
  simpa using size_of_appendCells h

def tabulatePixels (f : Nat → Nat → Nat → Check α) (cols rows planes : Nat) :
    Check (Vector α (cols * rows * planes)) :=
  match h : appendPixels f cols rows planes with
  | .ok cells => .ok ⟨cells, size_of_appendPixels h⟩
  | .error fault => .error fault

theorem tabulatePixels_eq (f : Nat → Nat → Nat → Check α) (cols rows planes : Nat) :
    tabulatePixels f cols rows planes =
      tabulate (fun i => f (i / planes % cols) (i / planes / cols) (i % planes))
        (cols * rows * planes) := by
  have same := appendPixels_eq f cols rows planes
  unfold tabulatePixels tabulate
  split
  next cells h =>
    rw [same] at h
    split
    next cells' h' =>
      obtain rfl : cells = cells' := Except.ok.inj (h.symm.trans h')
      rfl
    next fault h' => cases h.symm.trans h'
  next fault h =>
    rw [same] at h
    split
    next cells h' => cases h.symm.trans h'
    next fault' h' => exact congrArg Except.error (Except.error.inj (h.symm.trans h'))

/-- The image with the pixel `f x y p` in column `x`, row `y` and plane `p`. -/
def generate (bytes cols rows planes : Nat) (f : Nat → Nat → Nat → Check α) :
    Check (Image α) := do
  allocate bytes cols rows planes
  return ofVector (← tabulatePixels f cols rows planes)

def index (image : Image α) (x y p : Nat) : Nat := (y * image.cols + x) * image.planes + p

theorem index_lt (image : Image α) {x y p : Nat} (hx : x < image.cols) (hy : y < image.rows)
    (hp : p < image.planes) : image.index x y p < image.cells.size := by
  rw [image.size_cells]
  have row : y * image.cols + x < image.cols * image.rows := by
    calc y * image.cols + x < y * image.cols + image.cols := by omega
      _ = (y + 1) * image.cols := by rw [Nat.succ_mul]
      _ ≤ image.rows * image.cols := Nat.mul_le_mul_right _ hy
      _ = image.cols * image.rows := Nat.mul_comm _ _
  calc (y * image.cols + x) * image.planes + p
      < (y * image.cols + x) * image.planes + image.planes := by omega
    _ = (y * image.cols + x + 1) * image.planes := by rw [Nat.succ_mul]
    _ ≤ image.cols * image.rows * image.planes := Nat.mul_le_mul_right _ row

def Inside (image : Image α) (x y p : Nat) : Prop :=
  x < image.cols ∧ y < image.rows ∧ p < image.planes

instance (image : Image α) (x y p : Nat) : Decidable (image.Inside x y p) :=
  inferInstanceAs (Decidable (_ ∧ _))

def get? (image : Image α) (x y p : Nat) : Option α :=
  if h : image.Inside x y p then
    have := image.index_lt h.1 h.2.1 h.2.2
    some image.cells[image.index x y p]
  else
    none

def setCell (image : Image α) (i : Nat) (value : α) : Image α :=
  { image with
    cells := image.cells.setIfInBounds i value
    size_cells := by simpa using image.size_cells }

def set? (image : Image α) (x y p : Nat) (value : α) : Option (Image α) :=
  if image.Inside x y p then some (image.setCell (image.index x y p) value) else none

def setIndex (image : Image α) (i : Nat) (value : α) : Check (Image α) := do
  Check.require (i < image.cells.size) .outOfBounds
  return image.setCell i value

/-- The pixel whose linear index is that of a position, inside the image or not. -/
def fetch (image : Image α) (x y p : Nat) : Check α := do
  let line ← Extent.mul y image.cols
  let pixel ← Extent.mul (← Extent.add line x) image.planes
  fetchCell image.cells (← Extent.add pixel p)

/-- The image of one plane, whose cells are taken out of those of all planes. -/
def channel (image : Image α) (plane : Nat) : Except ImageError (Image α) :=
  if plane < image.planes then
    let cells := (takeEvery image.planes plane image.cells.toList).toArray
    let expected := image.cols * image.rows * 1
    if h : cells.size = expected then
      .ok { cols := image.cols, rows := image.rows, planes := 1, cells, size_cells := h }
    else
      .error (.dataLength cells.size expected)
  else
    .error (.planeIndex plane image.planes)

def plane (image : Image α) (plane : Fin image.planes) : Image α :=
  have bound (i : Fin (image.cols * image.rows * 1)) :
      i * image.planes + plane < image.cells.size := by
    rw [image.size_cells]
    calc i * image.planes + plane < i * image.planes + image.planes := by omega
      _ = (i + 1) * image.planes := by rw [Nat.succ_mul]
      _ ≤ image.cols * image.rows * image.planes :=
        Nat.mul_le_mul_right _ (by have := i.isLt; omega)
  ofVector (Vector.ofFn fun i : Fin (image.cols * image.rows * 1) =>
    have := bound i
    image.cells[i * image.planes + plane])

/-- The cells that are taken are those of the plane, as many as there are pixels. -/
theorem channel_of_lt {image : Image α} {p : Nat} (hp : p < image.planes) :
    image.channel p = .ok (image.plane ⟨p, hp⟩) := by
  -- A cell is found for every pixel, and behind the last one there is none.
  have bound {i : Nat} : i * image.planes + p < image.cells.size ↔ i < image.cols * image.rows := by
    rw [image.size_cells]
    constructor
    · intro inside
      exact Nat.lt_of_mul_lt_mul_right (Nat.lt_of_le_of_lt (Nat.le_add_right _ _) inside)
    · intro hi
      have := Nat.mul_le_mul_right image.planes hi
      rw [Nat.succ_mul] at this
      omega
  have same : (takeEvery image.planes p image.cells.toList).toArray =
      (image.plane ⟨p, hp⟩).cells := by
    apply Array.ext_getElem?
    intro i
    have taken := getElem?_takeEvery (Nat.zero_lt_of_lt hp) p i image.cells.toList
    rw [List.getElem?_toArray, taken, Array.getElem?_toList]
    by_cases hi : i < image.cols * image.rows
    · rw [Array.getElem?_eq_getElem (bound.2 hi)]
      simp [plane, ofVector, hi]
    · rw [Array.getElem?_eq_none (Nat.le_of_not_lt (mt bound.1 hi))]
      simp [plane, ofVector, hi]
  have size : (takeEvery image.planes p image.cells.toList).toArray.size =
      image.cols * image.rows * 1 := by
    rw [same]
    exact (image.plane ⟨p, hp⟩).size_cells
  simp only [channel, if_pos hp, dif_pos size]
  exact congrArg Except.ok (ext rfl rfl rfl same)

def map (f : α → β) (image : Image α) : Image β :=
  { image with
    cells := image.cells.map f
    size_cells := by simpa using image.size_cells }

def sizeText (image : Image α) : String :=
  s!"ImageSize \x7b width: {image.cols}, height: {image.rows} \x7d"

end Image

end ImageViews
