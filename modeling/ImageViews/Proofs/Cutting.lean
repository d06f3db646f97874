import ImageViews.Pixel.Standard
import ImageViews.Proofs.Coating

/-!
# Handles cut from an image

Whatever is cut from the handle of an image, and in whatever order, shows a rectangle of the image,
upright or transposed. The rectangle is followed through the cuts in integer arithmetic: a window
fails exactly if it leaves the rectangle, each position of the handle has the cell of the pixel that
it stands for, and what is painted through the handle is painted into that rectangle of the image
and nowhere else.
-/
namespace ImageViews

open Handle (Cut)

/-- A rectangle of a grid of pixels, seen upright or transposed, with the extent that is seen. -/
structure Area where
  left : Nat
  top : Nat
  cols : Nat
  rows : Nat
  turned : Bool

namespace Area

/-- A whole grid. -/
def whole (cols rows : Nat) : Area := { left := 0, top := 0, cols, rows, turned := false }

/-- The column and the row of the grid at a position of the area. -/
def pixel (a : Area) (x y : Nat) : Nat × Nat :=
  if a.turned then (a.left + y, a.top + x) else (a.left + x, a.top + y)

/-- The pixel of the grid belongs to the area. -/
def Has (a : Area) (x y : Nat) : Prop := ∃ i j, (i < a.cols ∧ j < a.rows) ∧ a.pixel i j = (x, y)

/-- The area after a cut. -/
def cut (a : Area) : Cut → Area
  | .transpose => { a with cols := a.rows, rows := a.cols, turned := !a.turned }
  | .reborrow => a
  | .window x y cols rows =>
    { a with left := (a.pixel x y).1, top := (a.pixel x y).2, cols, rows }

/-- The cut stays in the area. -/
def Allows (a : Area) : Cut → Prop
  | .transpose | .reborrow => True
  | .window x y cols rows => x + cols ≤ a.cols ∧ y + rows ≤ a.rows

/-- The area after some cuts. -/
def cutAll (a : Area) (cuts : List Cut) : Area := cuts.foldl cut a

/-- Each of the cuts stays in the area that the cuts before it have left. -/
def AllowsAll (a : Area) : List Cut → Prop
  | [] => True
  | c :: cuts => a.Allows c ∧ (a.cut c).AllowsAll cuts

variable {a : Area} {x y cols rows : Nat}

theorem pixel_whole : (whole cols rows).pixel x y = (x, y) := by simp [pixel, whole]

theorem pixel_transpose : (a.cut .transpose).pixel y x = a.pixel x y := by
  unfold pixel cut
  cases a.turned <;> simp

theorem pixel_window (x' y' : Nat) :
    (a.cut (.window x y cols rows)).pixel x' y' = a.pixel (x + x') (y + y') := by
  unfold pixel cut pixel
  cases a.turned <;> simp [Nat.add_assoc]

end Area

variable {α : Type} {image : Image α}

namespace Handle

variable {n : Nat} {handle : Handle n} {x y p : Nat}

/-- The handle shows an area of the image, in cells of the same buffer. -/
structure Lays (handle : Handle image.cells.size) (area : Area) : Prop where
  sound : handle.Sound
  cols_eq : handle.cols = area.cols
  rows_eq : handle.rows = area.rows
  planes_eq : handle.planes = image.planes
  words : handle.cols < Extent.modulus ∧ handle.rows < Extent.modulus
  strides : 0 < handle.planes ∨ handle.colStride = 0 ∧ handle.rowStride = 0
  inside : ∀ {x y p : Nat}, handle.Inside x y p →
    image.Inside (area.pixel x y).1 (area.pixel x y).2 p
  address_eq : ∀ {x y p : Nat}, handle.Inside x y p →
    handle.address x y p = image.index (area.pixel x y).1 (area.pixel x y).2 p

variable {area : Area} {handle : Handle image.cells.size}

/-- The handle of an image shows all of it. -/
theorem whole_lays (words : image.cols < Extent.modulus ∧ image.rows < Extent.modulus)
    (size_le : (image.cells.size : Int) ≤ Coordinate.greatest)
    (made : image.handle = .ok handle) : handle.Lays (.whole image.cols image.rows) := by
  have yields : image.handle.Yields Lenient fun handle =>
      handle.Sound ∧ handle.IsWhole image.cols image.rows image.planes :=
    whole_yields size_le (.inl Lenient.tolerant)
  obtain ⟨sound, isWhole⟩ := yields.value made
  have here {x y p : Nat} (inside : handle.Inside x y p) : image.Inside x y p := by
    unfold Inside at inside
    rwa [isWhole.cols_eq, isWhole.rows_eq, isWhole.planes_eq] at inside
  exact {
    sound
    cols_eq := isWhole.cols_eq
    rows_eq := isWhole.rows_eq
    planes_eq := isWhole.planes_eq
    words := by rwa [isWhole.cols_eq, isWhole.rows_eq]
    strides := by
      rw [isWhole.planes_eq]
      exact (Nat.eq_zero_or_pos image.planes).symm.imp_right isWhole.strides_eq
    inside := fun inside => by
      rw [Area.pixel_whole]
      exact here inside
    address_eq := fun inside => by
      rw [Area.pixel_whole]
      exact isWhole.address_eq inside }

/-- An image that can be counted has a handle. -/
theorem whole_of_counted (counted : image.cols * image.rows < Extent.modulus)
    (size_le : (image.cells.size : Int) ≤ Coordinate.greatest)
    (line_le : ((image.cols * image.planes : Nat) : Int) ≤ Coordinate.greatest) :
    ∃ handle, image.handle = .ok handle := by
  have line : image.cols * image.planes < Extent.modulus := by
    unfold Coordinate.greatest at line_le
    unfold Extent.modulus
    omega
  have yields : image.handle.Yields Strict fun handle =>
      handle.Sound ∧ handle.IsWhole image.cols image.rows image.planes :=
    whole_yields size_le (.inr ⟨⟨counted, line⟩, Nat.le_of_eq image.size_cells.symm⟩)
  exact yields.tolerable.succeeds

namespace Lays

theorem transpose (h : handle.Lays area) : handle.transpose.Lays (area.cut .transpose) where
  sound := h.sound.transpose
  cols_eq := h.rows_eq
  rows_eq := h.cols_eq
  planes_eq := h.planes_eq
  words := h.words.symm
  strides := h.strides.imp_right And.symm
  inside {x y p} inside := by
    rw [Area.pixel_transpose]
    exact h.inside (inside_transpose.1 inside)
  address_eq {x y p} inside := by
    rw [Area.pixel_transpose, address_transpose]
    exact h.address_eq (inside_transpose.1 inside)

theorem window (h : handle.Lays area) {w : Handle image.cells.size} {x y cols rows : Nat}
    (window : w.IsWindow handle x y cols rows) : w.Lays (area.cut (.window x y cols rows)) where
  sound := window.sound h.sound
  cols_eq := window.cols_eq
  rows_eq := window.rows_eq
  planes_eq := window.planes_eq.trans h.planes_eq
  words := by
    have := window.right_le
    have := window.bottom_le
    have := window.cols_eq
    have := window.rows_eq
    have := h.words
    omega
  strides := by
    rw [window.planes_eq, window.strides_eq.1, window.strides_eq.2]
    exact h.strides
  inside {x' y' p} inside := by
    rw [Area.pixel_window]
    exact h.inside (window.inside inside)
  address_eq {x' y' p} inside := by
    rw [Area.pixel_window, window.address h.sound inside]
    exact h.address_eq (window.inside inside)

/-- A window that fits is cut. -/
theorem window_of_fits (h : handle.Lays area) {x y cols rows : Nat}
    (fits : x + cols ≤ handle.cols ∧ y + rows ≤ handle.rows) :
    ∃ w, handle.window x y cols rows = .ok w ∧ w.IsWindow handle x y cols rows := by
  have yields := window_yields (E := Strict) h.sound (.inr ⟨fits, h.words, h.strides⟩)
  obtain ⟨w, made⟩ := yields.tolerable.succeeds
  exact ⟨w, made, (yields.value made).2⟩

/-- A window that was cut fits. -/
theorem fits_of_window (h : handle.Lays area) {w : Handle image.cells.size} {x y cols rows : Nat}
    (made : handle.window x y cols rows = .ok w) : w.IsWindow handle x y cols rows :=
  ((window_yields (E := Lenient) h.sound (.inl Lenient.tolerant)).value made).2

theorem window_fails_iff (h : handle.Lays area) {x y cols rows : Nat} :
    (∃ fault, handle.window x y cols rows = .error fault) ↔
      handle.cols < x + cols ∨ handle.rows < y + rows := by
  constructor
  · rintro ⟨fault, failed⟩
    apply Classical.byContradiction
    intro fits
    have fits : x + cols ≤ handle.cols ∧ y + rows ≤ handle.rows := by omega
    obtain ⟨w, made, -⟩ := h.window_of_fits fits
    rw [made] at failed
    cases failed
  · intro leaves
    cases made : handle.window x y cols rows with
    | error fault => exact ⟨fault, rfl⟩
    | ok w =>
      have window := h.fits_of_window made
      have := window.right_le
      have := window.bottom_le
      omega

/-- A cut succeeds exactly if it stays in the area, and shows what is left of it. -/
theorem cut (h : handle.Lays area) (c : Cut) :
    (area.Allows c → ∃ w, handle.cut c = .ok w) ∧
      ∀ w, handle.cut c = .ok w → area.Allows c ∧ w.Lays (area.cut c) := by
  cases c with
  | transpose =>
    refine ⟨fun _ => ⟨_, rfl⟩, ?_⟩
    rintro _ ⟨⟩
    exact ⟨trivial, h.transpose⟩
  | reborrow =>
    refine ⟨fun _ => ⟨_, rfl⟩, ?_⟩
    rintro _ ⟨⟩
    exact ⟨trivial, h⟩
  | window x y cols rows =>
    constructor
    · intro allowed
      unfold Area.Allows at allowed
      rw [← h.cols_eq, ← h.rows_eq] at allowed
      obtain ⟨w, made, -⟩ := h.window_of_fits allowed
      exact ⟨w, made⟩
    · intro w made
      have window := h.fits_of_window made
      refine ⟨?_, h.window window⟩
      unfold Area.Allows
      rw [← h.cols_eq, ← h.rows_eq]
      exact ⟨window.right_le, window.bottom_le⟩

/-- So do any number of cuts. -/
theorem cutAll (h : handle.Lays area) (cuts : List Cut) :
    (area.AllowsAll cuts → ∃ w, handle.cutAll cuts = .ok w) ∧
      ∀ w, handle.cutAll cuts = .ok w → area.AllowsAll cuts ∧ w.Lays (area.cutAll cuts) := by
  induction cuts generalizing handle area with
  | nil =>
    refine ⟨fun _ => ⟨handle, rfl⟩, ?_⟩
    rintro _ ⟨⟩
    exact ⟨trivial, h⟩
  | cons c cuts ih =>
    obtain ⟨cuts_one, lays_one⟩ := h.cut c
    have split (w : Handle image.cells.size) : handle.cutAll (c :: cuts) = .ok w ↔
        ∃ w', handle.cut c = .ok w' ∧ w'.cutAll cuts = .ok w := by
      unfold Handle.cutAll
      rw [List.foldlM_cons]
      exact Check.bind_eq_ok
    constructor
    · rintro ⟨allowed, rest⟩
      obtain ⟨w', made⟩ := cuts_one allowed
      obtain ⟨w, made'⟩ := (ih (lays_one w' made).2).1 rest
      exact ⟨w, (split w).2 ⟨w', made, made'⟩⟩
    · intro w made
      obtain ⟨w', made, made'⟩ := (split w).1 made
      obtain ⟨allowed, lays⟩ := lays_one w' made
      obtain ⟨rest, lays'⟩ := (ih lays).2 w made'
      exact ⟨⟨allowed, rest⟩, lays'⟩

end Lays

end Handle

namespace Image

/-- The image with other values. -/
def withCells (image : Image α) (cells : Vector α image.cells.size) : Image α :=
  { image with
    cells := cells.toArray
    size_cells := cells.size_toArray.trans image.size_cells }

theorem get?_withCells {cells : Vector α image.cells.size} {x y p : Nat}
    (inside : image.Inside x y p) :
    (image.withCells cells).get? x y p =
      (fetchCell cells.toArray (image.index x y p)).toOption := by
  have lt := image.index_lt inside.1 inside.2.1 inside.2.2
  have there : (image.withCells cells).Inside x y p := inside
  rw [fetchCell_toArray lt, get?, dif_pos there]
  rfl

theorem get?_withCells_outside {cells : Vector α image.cells.size} {x y p : Nat}
    (outside : ¬image.Inside x y p) : (image.withCells cells).get? x y p = none := by
  have there : ¬(image.withCells cells).Inside x y p := outside
  rw [get?, dif_neg there]

/-- Whatever values the image has, painting changes none outside the area, and if it succeeds it
gives all pixels of the area values that are independent of the ones before. -/
def Repaints {σ : Type} (image : Image α) (area : Area)
    (paint : Paint σ α image.cells.size Unit) : Prop :=
  ∀ s, ∃ pixel : Nat → Nat → Nat → Option α, ∀ cells outcome cells' s',
    paint.run.run (cells, s) = (outcome, cells', s') →
    (∀ x y p, ¬area.Has x y →
      (image.withCells cells').get? x y p = (image.withCells cells).get? x y p) ∧
    (outcome = .ok () → ∀ i j p, i < area.cols → j < area.rows → p < image.planes →
      (image.withCells cells').get? (area.pixel i j).1 (area.pixel i j).2 p = pixel i j p)

/-- What paints the whole handle of an area repaints the area. -/
theorem repaints_of_coats {σ : Type} {area : Area} {handle : Handle image.cells.size}
    (lays : handle.Lays area) {paint : Paint σ α image.cells.size Unit}
    (coats : handle.Coats handle.Inside paint) : image.Repaints area paint := by
  intro s
  obtain ⟨outcome, s', painted, pixel, covers, run⟩ := coats s
  refine ⟨fun i j p => (pixel i j p).toOption, ?_⟩
  intro cells outcome' cells' s'' run'
  obtain ⟨cells'', same, h⟩ := run cells
  obtain ⟨rfl, result⟩ := Prod.mk.inj (same.symm.trans run')
  obtain ⟨rfl, rfl⟩ := Prod.mk.inj result
  constructor
  · intro x y p other
    by_cases inside : image.Inside x y p
    · have lt := image.index_lt inside.1 inside.2.1 inside.2.2
      have kept := h.outside (image.index x y p) ?_
      · have value : cells''[image.index x y p] = cells[image.index x y p] := by
          simpa [lt] using kept
        rw [get?_withCells inside, get?_withCells inside, fetchCell_toArray lt,
          fetchCell_toArray lt, value]
      · intro i j p' here _ equal
        have there := lays.inside here
        rw [lays.address_eq here] at equal
        have pixel := image.index_injective there.1 there.2.2 inside.1 inside.2.2 equal
        refine other ⟨i, j, ⟨?_, ?_⟩, Prod.ext pixel.1 pixel.2.1⟩
        · exact lays.cols_eq ▸ here.1
        · exact lays.rows_eq ▸ here.2.1
    · rw [get?_withCells_outside inside, get?_withCells_outside inside]
  · rintro rfl i j p hi hj hp
    have here : handle.Inside i j p :=
      ⟨lays.cols_eq.symm ▸ hi, lays.rows_eq.symm ▸ hj, lays.planes_eq.symm ▸ hp⟩
    rw [get?_withCells (lays.inside here), ← lays.address_eq here,
      h.inside here (covers rfl i j p here here)]

/-- The area of the image that is left after some cuts. -/
def area (image : Image α) (cuts : List Cut) : Area :=
  (Area.whole image.cols image.rows).cutAll cuts

/-- Whatever is cut from the handle of an image shows the rectangle that the cuts lead to, as long
as none of them leaves what is there to be cut. Its positions have the cells of the pixels that they
stand for, and a box that is painted into it, whichever way the view is read, changes no other pixel
of the image and leaves none of its own as it was. -/
theorem cuts_repaint_area {A : Arithmetic} {q : A.Pixel} {image : Image (A.Value q)}
    (words : image.cols < Extent.modulus ∧ image.rows < Extent.modulus)
    (size_le : (image.cells.size : Int) ≤ Coordinate.greatest)
    (line_le : ((image.cols * image.planes : Nat) : Int) ≤ Coordinate.greatest) :
    (image.cols * image.rows < Extent.modulus → ∃ whole, image.handle = .ok whole) ∧
    ∀ whole cuts, image.handle = .ok whole →
      ((∃ w, whole.cutAll cuts = .ok w) ↔ (Area.whole image.cols image.rows).AllowsAll cuts) ∧
      ∀ w, whole.cutAll cuts = .ok w →
        (w.cols = (image.area cuts).cols ∧ w.rows = (image.area cuts).rows ∧
          w.planes = image.planes) ∧
        (∀ x y cols rows, (∃ fault, w.window x y cols rows = .error fault) ↔
          w.cols < x + cols ∨ w.rows < y + rows) ∧
        (∀ x y p, w.Inside x y p →
          image.Inside ((image.area cuts).pixel x y).1 ((image.area cuts).pixel x y).2 p ∧
          (w.cell x y p).map Fin.val =
            .ok (image.index ((image.area cuts).pixel x y).1 ((image.area cuts).pixel x y).2 p)) ∧
        (∀ x y p x' y' p', w.Inside x y p → w.Inside x' y' p' → w.cell x y p = w.cell x' y' p' →
          x = x' ∧ y = y' ∧ p = p') ∧
        ∀ (v : View A q) box, image.Repaints (image.area cuts) (v.rasterize w box) ∧
          image.Repaints (image.area cuts) (v.paint w box) := by
  refine ⟨fun counted => Handle.whole_of_counted counted size_le line_le, ?_⟩
  intro whole cuts made
  obtain ⟨succeeds, shows⟩ := (Handle.whole_lays words size_le made).cutAll cuts
  refine ⟨⟨fun ⟨w, cut⟩ => (shows w cut).1, succeeds⟩, fun w cut => ?_⟩
  have lays : w.Lays (image.area cuts) := (shows w cut).2
  refine ⟨⟨lays.cols_eq, lays.rows_eq, lays.planes_eq⟩, fun _ _ _ _ => lays.window_fails_iff,
    fun x y p inside => ⟨lays.inside inside, ?_⟩, ?_, fun v box => ⟨?_, ?_⟩⟩
  · rw [lays.sound.cell_eq inside, ← lays.address_eq inside]
    rfl
  · intro x y p x' y' p' inside inside' same
    rw [lays.sound.cell_eq inside, lays.sound.cell_eq inside'] at same
    exact lays.sound.injective inside inside' (Fin.mk.inj (Except.ok.inj same))
  · exact repaints_of_coats lays (v.tiler_coating w lays.sound box)
  · exact repaints_of_coats lays (v.sampler.paint_coats lays.sound box)

section Examples

/-- A square of nines. -/
def nines : Image UInt8 where
  cols := 3
  rows := 3
  planes := 1
  cells := #[9, 9, 9, 9, 9, 9, 9, 9, 9]
  size_cells := rfl

/-- Two rows that count on. -/
def counting : View .standard PixelKind.u8 :=
  .image (A := .standard) (p := PixelKind.u8)
    { cols := 3, rows := 2, planes := 1, cells := (#[0, 1, 2, 3, 4, 5] : Array UInt8)
      size_cells := rfl } .given

/-- The first two columns of the transposed square but for the first one of the square itself. -/
def ninesWindow : Handle nines.cells.size where
  start := 1
  cols := 3
  rows := 2
  planes := 1
  colStride := 3
  rowStride := 1
  start_le := by decide

/-- Through a window of the transposed square the rows are painted as columns. -/
theorem nines_repainted :
    let cuts : List Cut := [.transpose, .window 0 1 3 2]
    let painted := (counting.rasterize ninesWindow { width := 3, height := 2 }).run.run
      (Vector.replicate 9 (9 : UInt8), [])
    (∃ whole, nines.handle = .ok whole ∧ whole.cutAll cuts = .ok ninesWindow) ∧
      nines.Repaints (nines.area cuts)
        (counting.rasterize ninesWindow { width := 3, height := 2 }) ∧
      painted.1.isOk ∧ painted.2.1.toArray = (#[9, 0, 3, 9, 1, 4, 9, 2, 5] : Array UInt8) := by
  obtain ⟨exist, cut⟩ := @cuts_repaint_area .standard PixelKind.u8 nines
    ⟨by decide, by decide⟩ (by decide) (by decide)
  obtain ⟨whole, made⟩ := exist (by decide)
  have same : whole.cutAll [.transpose, .window 0 1 3 2] = .ok ninesWindow := by
    obtain rfl := Except.ok.inj made.symm
    rfl
  obtain ⟨-, -, -, -, repaints⟩ := (cut whole _ made).2 ninesWindow same
  exact ⟨⟨whole, made, same⟩, (repaints counting { width := 3, height := 2 }).1,
    rfl, rfl⟩

end Examples

end Image

end ImageViews
