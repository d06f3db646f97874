import ImageViews.Image.Editing
import ImageViews.Proofs.Tiles

/-!
# Transposed images

The transposed grid of an image is walked row by row, so its cursors stride over the rows of the
stored cells. Where the products of the extents stay within half of the greatest coordinate, the
cursors reach every place that the walk passes, the ones behind the last column and row included.
-/
namespace ImageViews

/-- Half of the greatest coordinate. -/
def half : Nat := 0x3fffffffffffffff

/-- The products of the extents stay within half of the greatest coordinate. -/
structure Compact (cols rows planes : Nat) : Prop where
  pixels : cols * rows ≤ half
  line : cols * planes ≤ half
  column : rows * planes ≤ half
  cells : cols * rows * planes ≤ half

instance (cols rows planes : Nat) : Decidable (Compact cols rows planes) :=
  decidable_of_iff (cols * rows ≤ half ∧ cols * planes ≤ half ∧ rows * planes ≤ half ∧
    cols * rows * planes ≤ half)
    ⟨fun ⟨pixels, line, column, cells⟩ => ⟨pixels, line, column, cells⟩,
      fun ⟨pixels, line, column, cells⟩ => ⟨pixels, line, column, cells⟩⟩

theorem half_lt : half < Extent.modulus := by decide

/-- There is room for `n` values of the given number of bytes. -/
def Allocates (bytes n : Nat) : Prop := ((bytes * n : Nat) : Int) ≤ Coordinate.greatest

instance (bytes n : Nat) : Decidable (Allocates bytes n) := inferInstanceAs (Decidable (_ ≤ _))

theorem reserve_eq (bytes n : Nat) :
    reserve bytes n = if Allocates bytes n then .ok () else .error .capacity := by
  refine ite_congr ?_ (fun _ => rfl) fun _ => rfl
  rw [Allocates, Int.natCast_mul]

namespace Compact

variable {cols rows planes bytes : Nat}

theorem transpose (h : Compact cols rows planes) : Compact rows cols planes where
  pixels := by
    have := h.pixels
    rwa [Nat.mul_comm]
  line := h.column
  column := h.line
  cells := by
    have := h.cells
    rwa [Nat.mul_comm rows]

/-- One of the planes. -/
theorem channel (h : Compact cols rows planes) {plane : Nat} (hplane : plane < planes) :
    Compact cols rows 1 where
  pixels := h.pixels
  line := Nat.le_trans (Nat.mul_le_mul_left _ (by omega)) h.line
  column := Nat.le_trans (Nat.mul_le_mul_left _ (by omega)) h.column
  cells := Nat.le_trans (Nat.mul_le_mul_left _ (by omega)) h.cells

theorem addressable (h : Compact cols rows planes) :
    ((cols * rows * planes : Nat) : Int) ≤ Coordinate.greatest := by
  have := h.cells
  unfold half at this
  unfold Coordinate.greatest
  omega

theorem storable (h : Compact cols rows planes)
    (memory : Allocates bytes (cols * rows * planes)) : Storable bytes cols rows planes :=
  ⟨Nat.lt_of_le_of_lt h.pixels half_lt, Nat.lt_of_le_of_lt h.line half_lt, memory⟩

theorem count_eq (h : Compact cols rows planes) :
    Image.count cols rows planes = .ok (cols * rows * planes) := by
  unfold Image.count Extent.mul
  rw [Extent.checked_of_lt (Nat.lt_of_le_of_lt h.pixels half_lt), Check.ok_bind,
    Extent.checked_of_lt (Nat.lt_of_le_of_lt h.cells half_lt)]

/-- The cells of compact extents can be counted, so that an image lacks nothing but room. -/
theorem allocate_eq (h : Compact cols rows planes) :
    Image.allocate bytes cols rows planes =
      if Allocates bytes (cols * rows * planes) then .ok () else .error .capacity := by
  unfold Image.allocate
  rw [h.count_eq, Check.ok_bind, reserve_eq]

end Compact

namespace Image

variable {α : Type} {image : Image α} {storage : Storage α} {x y p : Nat}

/-- The grid of an image. -/
def grid (image : Image α) : Strided α where
  cells := image.cells
  cols := image.cols
  rows := image.rows
  planes := image.planes
  colStride := Coordinate.ofExtent image.planes
  rowStride := Coordinate.ofExtent (image.cols * image.planes)

theorem strided_eq (h : Compact image.cols image.rows image.planes) :
    image.strided = .ok image.grid := by
  unfold strided Strided.ofCells Check.require Extent.mul
  rw [h.count_eq, Check.ok_bind, if_pos (Nat.le_of_eq image.size_cells.symm), Check.ok_bind,
    Extent.checked_of_lt (Nat.lt_of_le_of_lt h.line half_lt)]
  rfl

/-- Behind the columns of the transposed grid there is room for another one, and every place that
the walk passes lies before its end. -/
theorem passed_le (h : Compact image.cols image.rows image.planes)
    (passes : Handle.Passes image.rows image.cols image.planes x y p) :
    x * (image.cols * image.planes) + y * image.planes + p ≤ half + half := by
  have line := h.line
  have cells := h.cells
  have area : image.cols * image.rows * image.planes =
      image.rows * (image.cols * image.planes) := by
    rw [Nat.mul_comm image.cols, Nat.mul_assoc]
  rw [area] at cells
  have column (hy : y ≤ image.cols) : y * image.planes ≤ image.cols * image.planes :=
    Nat.mul_le_mul_right _ hy
  have row (hx : x ≤ image.rows) :
      x * (image.cols * image.planes) ≤ image.rows * (image.cols * image.planes) :=
    Nat.mul_le_mul_right _ hx
  rcases passes with ⟨hy, ⟨hx, hp⟩ | ⟨hx, rfl⟩⟩ | ⟨hy, rfl, rfl⟩
  · have pixel : (y + 1) * image.planes ≤ image.cols * image.planes := Nat.mul_le_mul_right _ hy
    have last : (x + 1) * (image.cols * image.planes) ≤
        image.rows * (image.cols * image.planes) := Nat.mul_le_mul_right _ hx
    rw [Nat.succ_mul] at pixel last
    omega
  · have := column (Nat.le_of_lt hy)
    have := row hx
    omega
  · have := column hy
    omega

/-- The terms of a place that the walk passes. Without columns the stride to the next one may be any
word, but the walk does not pass a second one. -/
theorem passed_terms (h : Compact image.cols image.rows image.planes)
    (passes : Handle.Passes image.rows image.cols image.planes x y p) :
    (x * image.grid.rowStride : Int) = (x * (image.cols * image.planes) : Nat) ∧
      (y * image.grid.colStride : Int) = (y * image.planes : Nat) := by
  have line := h.line
  unfold half at line
  constructor
  · have word :
        Coordinate.ofExtent (image.cols * image.planes) = (image.cols * image.planes : Nat) :=
      Coordinate.ofExtent_of_lt (by omega)
    rw [grid, word, ← Int.natCast_mul]
  · rcases Nat.eq_zero_or_pos image.cols with none | some
    · obtain rfl : y = 0 := by
        have := passes.le.2.1
        omega
      simp
    · have := Nat.le_mul_of_pos_left image.planes some
      have word : Coordinate.ofExtent image.planes = image.planes :=
        Coordinate.ofExtent_of_lt (by omega)
      rw [grid, word, ← Int.natCast_mul]

/-- A cursor can be placed where the terms of its place add up to a coordinate. -/
theorem admits_of_terms {grid : Strided α} {x y : Int} {a b : Nat}
    (col : x * grid.colStride = a) (row : y * grid.rowStride = b) (le : a + b + p ≤ half + half) :
    (Sampler.strided grid : Sampler Log α).Admits Strict x y p := by
  have fits {i : Int} (nonneg : 0 ≤ i) (hi : i ≤ half + half) : Coordinate.Fits i := by
    unfold half at hi
    unfold Coordinate.Fits Coordinate.least Coordinate.greatest
    omega
  have placed : (grid.addressing.advance (0 : Int) x y p).Yields Strict fun _ => True := by
    simp only [Strided.addressing, Addressing.advance]
    refine .bind (Coordinate.mul_yields (.inr ?_) fun _ => ?_)
    · exact col ▸ fits (by omega) (by omega)
    refine .bind (Coordinate.mul_yields (.inr ?_) fun _ => ?_)
    · exact row ▸ fits (by omega) (by omega)
    rw [col, row]
    refine .bind (Coordinate.add_yields (.inr (fits (by omega) (by omega))) fun _ => ?_)
    refine .bind (Coordinate.mul_yields (.inr (fits (by omega) (by omega))) fun _ => ?_)
    refine .bind (Coordinate.add_yields (.inr (fits (by omega) (by omega))) fun _ => ?_)
    exact Coordinate.add_yields (.inr (fits (by omega) (by omega))) fun _ => trivial
  exact placed.tolerable

theorem transposed_admits (h : Compact image.cols image.rows image.planes)
    (passes : Handle.Passes image.rows image.cols image.planes x y p) :
    (Sampler.strided image.grid.transpose : Sampler Log α).Admits Strict x y p := by
  obtain ⟨col, row⟩ := passed_terms h passes
  exact admits_of_terms col row (passed_le h passes)

/-- With memory for it, the transposed image displays the pixels with their coordinates
exchanged. -/
theorem transposed_displays (h : Compact image.cols image.rows image.planes)
    (memory : Allocates storage.bytes (image.cols * image.rows * image.planes)) (log : Log) :
    ∃ image' log', (image.transposed storage).run.run log = (.ok image', log') ∧
      image'.Displays image.rows image.cols image.planes fun x y p => image.value y x p := by
  have addressable : image.Addressable := by
    unfold Addressable
    rw [image.size_cells]
    exact h.addressable
  have sound := image.strided_sound addressable (strided_eq h)
  have paints : (Tiler.strided image.grid.transpose).Paints Strict image.grid.transpose.value
      (.ofExtent image.rows image.cols) := by
    refine Tiler.strided_paints_of_passes sound.transpose (fun _ x y has => ?_)
      fun x y p passes => ?_
    · simp only [Box.Has, Box.ofExtent, Int.zero_add] at has
      exact has
    · simpa [Box.ofExtent] using transposed_admits h passes
  have turned : Yields (Failure.Tolerated Strict) (image.transposed storage) log fun image' _ =>
      image'.Displays image.rows image.cols image.planes fun x y p => image.value y x p := by
    have memory' : Allocates storage.bytes (image.rows * image.cols * image.planes) := by
      rwa [Nat.mul_comm image.rows]
    unfold transposed
    rw [strided_eq h]
    refine (Tiler.region_yields
      (.inr ((h.transpose.storable memory').renderable storage.bytes_pos)) fun _ => paints).mono ?_
    intro image' _ displays
    apply displays.congr
    intro x y p a hx hy hp ha
    have holds : image.Holds y x := by
      simp only [Box.ofExtent] at hx hy
      unfold Holds
      omega
    have inside : x < image.grid.rows ∧ y < image.grid.cols := ⟨hx, hy⟩
    simp only [Box.ofExtent, Int.zero_add] at ha
    rwa [Strided.value_transpose inside.2 inside.1,
      strided_value addressable (strided_eq h) holds hp] at ha
  exact turned.succeeds Failure.not_tolerated

/-- Without memory for it there is no transposed image. -/
theorem transposed_capacity (h : Compact image.cols image.rows image.planes)
    (memory : ¬Allocates storage.bytes (image.cols * image.rows * image.planes)) (log : Log) :
    (image.transposed storage).run.run log = (.error (.fault .capacity), log) := by
  have full :
      Image.allocate storage.bytes image.rows image.cols image.planes = .error .capacity := by
    rw [h.transpose.allocate_eq, Nat.mul_comm image.rows, if_neg memory]
  unfold transposed
  rw [strided_eq h]
  change (Image.render storage image.rows image.cols image.planes _).run.run log = _
  unfold Image.render
  rw [full]
  rfl

end Image

end ImageViews
