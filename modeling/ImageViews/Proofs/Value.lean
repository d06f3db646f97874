import ImageViews.Proofs.Moves
import ImageViews.View.Evaluate

/-!
# The value of a pixel

What a view shows at a pixel is given by recursion on the view, without cursors, buffers, memos or
words: coordinates are integers that never overflow, and the only faults are those of the pixel
arithmetic, of the index maps of borders, and of pixels that are not there. Two ways of evaluating
differ in one respect that matters: point access sums a separable filter over its dense kernel,
boxes sum it in two passes.
-/
namespace ImageViews

/-- The two ways of evaluating a view. -/
inductive Access
  | point
  | box
  deriving DecidableEq, Repr

/-- How many coordinates of an axis count as inside. Boxes are compared by their corners, which are
signed. -/
def Access.inside : Access → Nat → Int
  | point, len => len
  | box, len => Coordinate.ofExtent len

@[simp] theorem Access.inside_point (len : Nat) : Access.point.inside len = len := rfl

@[simp] theorem Access.inside_box (len : Nat) :
    Access.box.inside len = Coordinate.ofExtent len := rfl

variable {A : Arithmetic} {p : A.Pixel} {k : A.Coeff} {q : A.Pixel} {α : Type}

def Image.value (image : Image α) (x y : Int) (plane : Nat) : Check α :=
  if 0 ≤ x ∧ 0 ≤ y then
    match image.get? x.toNat y.toNat plane with
    | some a => .ok a
    | none => .error .outOfBounds
  else
    .error .outOfBounds

def Strided.value (grid : Strided α) (x y : Int) (plane : Nat) : Check α :=
  if 0 ≤ x ∧ x < grid.cols ∧ 0 ≤ y ∧ y < grid.rows then
    fetchCell grid.cells ((x * grid.colStride + y * grid.rowStride).toNat + plane)
  else
    .error .outOfBounds

/-- The pixel at any coordinates of an extent with a border. -/
def Border.value (border : Border) (access : Access) (blank : α) (cols rows : Nat)
    (source : Int → Int → Check α) (x y : Int) : Check α :=
  if 0 ≤ x ∧ 0 ≤ y ∧ x < access.inside cols ∧ y < access.inside rows then
    source x y
  else if border = .zero ∨ cols = 0 ∨ rows = 0 then
    .ok blank
  else do
    let column ← border.index x cols
    let row ← border.index y rows
    source (Coordinate.ofExtent column) (Coordinate.ofExtent row)

namespace Border

variable {border : Border} {access : Access} {blank : α} {cols rows : Nat}
  {source : Int → Int → Check α} {x y : Int}

/-- Whether the pixel `(x, y)` counts as inside the extent. -/
def Inside (access : Access) (cols rows : Nat) (x y : Int) : Prop :=
  0 ≤ x ∧ 0 ≤ y ∧ x < access.inside cols ∧ y < access.inside rows

instance : Decidable (Inside access cols rows x y) :=
  inferInstanceAs (Decidable (_ ∧ _ ∧ _ ∧ _))

/-- Whether the outside of the extent is blank. -/
def Blank (border : Border) (cols rows : Nat) : Prop := border = .zero ∨ cols = 0 ∨ rows = 0

instance : Decidable (border.Blank cols rows) := inferInstanceAs (Decidable (_ ∨ _ ∨ _))

theorem value_of_inside (h : Inside access cols rows x y) :
    border.value access blank cols rows source x y = source x y := if_pos h

theorem value_of_blank (h : ¬Inside access cols rows x y) (hb : border.Blank cols rows) :
    border.value access blank cols rows source x y = .ok blank := (if_neg h).trans (if_pos hb)

theorem value_of_mapped (h : ¬Inside access cols rows x y) (hb : ¬border.Blank cols rows) :
    border.value access blank cols rows source x y = (do
      let column ← border.index x cols
      let row ← border.index y rows
      source (Coordinate.ofExtent column) (Coordinate.ofExtent row)) :=
  (if_neg h).trans (if_neg hb)

/-- The coordinates that a border reads for the pixel `(x, y)`. -/
inductive Reads (border : Border) (access : Access) (cols rows : Nat) (x y : Int) :
    Int → Int → Prop
  | inside : Inside access cols rows x y → Reads border access cols rows x y x y
  | mapped {column row : Nat} : ¬Inside access cols rows x y → ¬border.Blank cols rows →
    border.index x cols = .ok column → border.index y rows = .ok row →
    Reads border access cols rows x y (Coordinate.ofExtent column) (Coordinate.ofExtent row)

end Border

/-- Adds the products of `n` pixels, from the `i`-th on, with their coefficients. -/
def sumLine (h : A.product p k = some q) (pixel : Nat → Check (A.Value p))
    (coeff : Nat → Check (A.Factor k)) : (n i : Nat) → A.Value q → Check (A.Value q)
  | 0, _, sum => .ok sum
  | n + 1, i, sum => do
    let value ← pixel i
    let factor ← coeff i
    let product ← A.scale h value factor
    let sum ← A.add sum product
    sumLine h pixel coeff n (i + 1) sum

/-- Adds the products of `n` lines of `cols` pixels, from the `j`-th on, with their
coefficients. -/
def sumWindow (h : A.product p k = some q) (pixel : Nat → Nat → Check (A.Value p))
    (coeff : Nat → Nat → Check (A.Factor k)) (cols : Nat) :
    (n j : Nat) → A.Value q → Check (A.Value q)
  | 0, _, sum => .ok sum
  | n + 1, j, sum => do
    let sum ← sumLine h (pixel · j) (coeff · j) cols 0 sum
    sumWindow h pixel coeff cols n (j + 1) sum

/-- The coefficient in column `i` and row `j` of the kernel rotated by half a turn. -/
def Kernel.turned {κ : Type} (kernel : Kernel κ) (i j : Nat) : Check κ :=
  kernel.read (kernel.start .rotated - (j * kernel.cols + i : Nat))

/-- The sum of the products of the rotated kernel with a window of pixels. -/
def Kernel.sum (h : A.product p k = some q) (kernel : Kernel (A.Factor k))
    (pixel : Nat → Nat → Check (A.Value p)) : Check (A.Value q) :=
  sumWindow h pixel kernel.turned kernel.cols kernel.rows 0 (A.start q)

/-- The `i`-th coefficient of the reversed factor. -/
def turnedFactor {κ : Type} (factor : List κ) (i : Nat) : Check κ :=
  fetchCell factor.reverse.toArray i

/-- The sum of the products of the reversed factor with a line of pixels. -/
def factorSum (h : A.product p k = some q) (factor : List (A.Factor k))
    (pixel : Nat → Check (A.Value p)) : Check (A.Value q) :=
  sumLine h pixel (turnedFactor factor) factor.length 0 (A.start q)

/-- The distance from the first coefficient of the rotated kernel to the anchor. -/
def Anchor.shift {cols rows : Nat} (anchor : Anchor cols rows) : Int × Int :=
  (Coordinate.ofExtent anchor.before.1, Coordinate.ofExtent anchor.before.2)

/-- The two passes of a separable filter at one pixel. -/
def twoPasses (h : A.product p k = some q) (row col : List (A.Factor k)) (shift : Int × Int)
    (source : Int → Int → Check (A.Value p)) (x y : Int) : Check (A.Value q) :=
  let line (y : Int) : Check (A.Value q) := factorSum h row fun i => source (x - shift.1 + i) y
  if row.isEmpty && col.isEmpty then do
    A.scale h (← source x y) (A.one k)
  else if col.isEmpty then
    line y
  else if row.isEmpty then
    factorSum h col fun j => source x (y - shift.2 + j)
  else
    factorSum (A.product_closed h) col fun j => line (y - shift.2 + j)

/-- The sum over the dense kernel of a separable filter at one pixel. -/
def denseSum (h : A.product p k = some q) (row col : List (A.Factor k)) (shift : Int × Int)
    (source : Int → Int → Check (A.Value p)) (x y : Int) : Check (A.Value q) := do
  let kernel ← Kernel.outer (A.one k) A.times row col
  kernel.sum h fun i j => source (x - shift.1 + i) (y - shift.2 + j)

namespace View

def value (access : Access) : {p : A.Pixel} → View A p → Int → Int → Nat → Check (A.Value p)
  | _, image pixels _, x, y, plane => pixels.value x y plane
  | _, strided grid, x, y, plane => grid.value x y plane
  | _, crop child x0 y0 _ _, x, y, plane => child.value access (x + x0) (y + y0) plane
  | p, extend child border, x, y, plane =>
    border.value access (A.blank p) child.cols child.rows (child.value access · · plane) x y
  | _, convolve child h kernel anchor none, x, y, plane =>
    kernel.sum h fun i j =>
      child.value access (x - anchor.shift.1 + i) (y - anchor.shift.2 + j) plane
  | _, convolve (p := p) child h kernel anchor (some border), x, y, plane =>
    kernel.sum h fun i j =>
      border.value access (A.blank p) child.cols child.rows (child.value access · · plane)
        (x - anchor.shift.1 + i) (y - anchor.shift.2 + j)
  | _, separable (p := p) child h row col anchor border, x, y, plane =>
    let source := border.value access (A.blank p) child.cols child.rows
      (child.value access · · plane)
    match access with
    | .point => denseSum h row col anchor.shift source x y
    | .box => twoPasses h row col anchor.shift source x y

end View

end ImageViews
