import ImageViews.Proofs.Value

/-!
# Stored pixels

The cells of an image are numbered row by row, and a strided grid numbers them by its strides. For
a pixel that is there both address computations, that of point access and that of cursors, arrive
at its cell without leaving the words they are done in, and the cells of different pixels differ.
-/
namespace ImageViews

variable {α σ : Type} {E : Fault → Prop} {I : σ → Prop}

/-- Every cell of the image can be addressed. -/
def Image.Addressable (image : Image α) : Prop := (image.cells.size : Int) ≤ Coordinate.greatest

/-- The strides of the grid lead to a cell of its own extent from every position inside. -/
structure Strided.Sound (grid : Strided α) : Prop where
  size_le : (grid.cells.size : Int) ≤ Coordinate.greatest
  count_le : grid.cols * grid.rows * grid.planes ≤ grid.cells.size
  address_lt : ∀ {x y plane : Nat}, x < grid.cols → y < grid.rows → plane < grid.planes →
    0 ≤ grid.colStride ∧ 0 ≤ grid.rowStride ∧
      x * grid.colStride + y * grid.rowStride + plane < grid.cells.size

namespace Image

variable {image : Image α} {x y plane : Nat}

theorem value_of_inside (hx : x < image.cols) (hy : y < image.rows) (hp : plane < image.planes) :
    image.value x y plane = fetchCell image.cells (image.index x y plane) := by
  rw [fetchCell_of_lt (image.index_lt hx hy hp)]
  simp [value, get?, Inside, hx, hy, hp]

/-- The extents of an image with a pixel do not exceed the number of its cells. -/
theorem extents_le (hx : 0 < image.cols) (hy : 0 < image.rows) (hp : 0 < image.planes) :
    image.cols ≤ image.cells.size ∧ image.rows ≤ image.cells.size ∧
      image.planes ≤ image.cells.size ∧ image.cols * image.planes ≤ image.cells.size := by
  rw [image.size_cells]
  have cols : image.cols ≤ image.cols * image.rows := Nat.le_mul_of_pos_right _ hy
  have rows : image.rows ≤ image.cols * image.rows := Nat.le_mul_of_pos_left _ hx
  have planes : image.planes ≤ image.cols * image.planes := Nat.le_mul_of_pos_left _ hx
  have pixels := Nat.le_mul_of_pos_right (image.cols * image.rows) hp
  have line : image.cols * image.planes ≤ image.cols * image.rows * image.planes :=
    Nat.mul_le_mul_right _ cols
  omega

/-- Different positions inside have different indices. -/
theorem index_injective {x' y' plane' : Nat} (hx : x < image.cols) (hp : plane < image.planes)
    (hx' : x' < image.cols) (hp' : plane' < image.planes)
    (h : image.index x y plane = image.index x' y' plane') :
    x = x' ∧ y = y' ∧ plane = plane' := by
  have block {a b c d m : Nat} (hb : b < m) (hd : d < m) (equal : a * m + b = c * m + d) :
      a = c ∧ b = d := by
    have quotient {a b : Nat} (hb : b < m) : (a * m + b) / m = a := by
      rw [Nat.mul_comm, Nat.mul_add_div (by omega), Nat.div_eq_of_lt hb, Nat.add_zero]
    have first : a = c := by rw [← quotient (a := a) hb, equal, quotient hd]
    subst first
    exact ⟨rfl, by omega⟩
  obtain ⟨line, rfl⟩ := block hp hp' h
  obtain ⟨rfl, rfl⟩ := block hx hx' line
  exact ⟨rfl, rfl, rfl⟩

/-- The image of a plane has the pixels of the plane. -/
theorem channel_pixels {image' : Image α} (h : image.channel plane = .ok image') :
    (image'.cols = image.cols ∧ image'.rows = image.rows) ∧ image'.cells.size ≤ image.cells.size ∧
      ∀ x y, image'.get? x y 0 = image.get? x y plane := by
  by_cases hplane : plane < image.planes
  · rw [channel_of_lt hplane] at h
    obtain rfl := Except.ok.inj h
    refine ⟨⟨rfl, rfl⟩, ?_, fun x y => ?_⟩
    · rw [size_cells]
      simp only [Image.plane, ofVector, image.size_cells, Nat.mul_one]
      exact Nat.le_mul_of_pos_right _ (Nat.zero_lt_of_lt hplane)
    · unfold get?
      by_cases inside : x < image.cols ∧ y < image.rows
      · rw [dif_pos ⟨inside.1, inside.2, Nat.one_pos⟩, dif_pos ⟨inside.1, inside.2, hplane⟩]
        simp [index, Image.plane, ofVector]
      · rw [dif_neg fun pixel => inside ⟨pixel.1, pixel.2.1⟩,
          dif_neg fun pixel => inside ⟨pixel.1, pixel.2.1⟩]
  · rw [channel, if_neg hplane] at h
    cases h

theorem fetch_eq_value (ha : image.Addressable) (hx : x < image.cols) (hy : y < image.rows)
    (hp : plane < image.planes) : image.fetch x y plane = image.value x y plane := by
  have inside := image.index_lt hx hy hp
  unfold Addressable Coordinate.greatest at ha
  have line : y * image.cols ≤ y * image.cols + x := Nat.le_add_right _ _
  have pixel : y * image.cols + x ≤ (y * image.cols + x) * image.planes :=
    Nat.le_mul_of_pos_right _ (by omega)
  unfold index at inside
  rw [value_of_inside hx hy hp]
  simp only [fetch, Extent.mul, Extent.add]
  rw [Extent.checked_of_lt (by unfold Extent.modulus; omega), Check.ok_bind,
    Extent.checked_of_lt (by unfold Extent.modulus; omega), Check.ok_bind,
    Extent.checked_of_lt (by unfold Extent.modulus; omega), Check.ok_bind,
    Extent.checked_of_lt (by unfold Extent.modulus; omega), Check.ok_bind]
  rfl

/-- The grid of an image numbers the cells as the image does. -/
theorem strided_yields (image : Image α) : image.strided.Yields (· = .overflow) fun grid =>
    grid = { cells := image.cells, cols := image.cols, rows := image.rows, planes := image.planes,
             colStride := Coordinate.ofExtent image.planes,
             rowStride := Coordinate.ofExtent (image.cols * image.planes) } := by
  refine Check.Yields.bind (Check.Yields.bind (Extent.mul_yields (.inl rfl) ?_))
  intro _
  refine Extent.mul_yields (.inl rfl) ?_
  intro _
  refine Check.Yields.bind (Check.Yields.require (.inr ?_) fun _ => ?_)
  · exact image.size_cells ▸ Nat.le_refl _
  · exact Check.Yields.bind (Extent.mul_yields (.inl rfl) fun _ => Check.Yields.ok rfl)

/-- The address of a pixel in words that hold it. -/
theorem index_eq_strides (ha : image.Addressable) (hx : x < image.cols) (hy : y < image.rows)
    (hp : plane < image.planes) :
    (x * Coordinate.ofExtent image.planes +
      y * Coordinate.ofExtent (image.cols * image.planes) + plane : Int) =
        image.index x y plane := by
  have extents := image.extents_le (by omega) (by omega) (by omega)
  unfold Addressable at ha
  rw [Coordinate.ofExtent_of_le (by omega), Coordinate.ofExtent_of_le (by omega)]
  simp only [index, Int.natCast_add, Int.natCast_mul, Int.add_mul]
  rw [Int.mul_assoc y, Int.add_comm (x * _ : Int)]

theorem strided_sound (ha : image.Addressable) {grid : Strided α} (h : image.strided = .ok grid) :
    grid.Sound := by
  obtain rfl := (image.strided_yields).value h
  refine ⟨ha, Nat.le_of_eq image.size_cells.symm, fun {x y plane} hx hy hp => ?_⟩
  have extents := image.extents_le (Nat.zero_lt_of_lt hx) (Nat.zero_lt_of_lt hy)
    (Nat.zero_lt_of_lt hp)
  have address := index_eq_strides ha hx hy hp
  have inside := image.index_lt hx hy hp
  unfold Addressable at ha
  refine ⟨?_, ?_, ?_⟩
  · simp only [Coordinate.ofExtent_of_le (n := image.planes) (by omega)]
    omega
  · simp only [Coordinate.ofExtent_of_le (n := image.cols * image.planes) (by omega)]
    omega
  · simp only [address]
    omega

end Image

namespace Strided

variable {grid : Strided α} {x y plane : Nat}

theorem Sound.transpose (h : grid.Sound) : grid.transpose.Sound where
  size_le := h.size_le
  count_le := by
    have := h.count_le
    rwa [Nat.mul_comm grid.cols] at this
  address_lt hx hy hp := by
    obtain ⟨col, row, lt⟩ := h.address_lt hy hx hp
    simp only [Strided.transpose]
    omega

/-- The address of a position inside stays within the words of each of its terms. -/
theorem Sound.terms (h : grid.Sound) (hx : x < grid.cols) (hy : y < grid.rows)
    (hp : plane < grid.planes) :
    0 ≤ (x * grid.colStride : Int) ∧ 0 ≤ (y * grid.rowStride : Int) ∧
      (x * grid.colStride + y * grid.rowStride + plane : Int) < grid.cells.size := by
  obtain ⟨col, row, lt⟩ := h.address_lt hx hy hp
  exact ⟨Int.mul_nonneg (by omega) col, Int.mul_nonneg (by omega) row, lt⟩

theorem value_of_inside (hx : x < grid.cols) (hy : y < grid.rows) :
    grid.value x y plane =
      fetchCell grid.cells ((x * grid.colStride + y * grid.rowStride).toNat + plane) := by
  simp [value, hx, hy]

theorem value_transpose (hx : x < grid.cols) (hy : y < grid.rows) :
    grid.transpose.value y x plane = grid.value x y plane := by
  have turned : grid.transpose.value y x plane = _ := value_of_inside hy hx
  rw [value_of_inside hx hy, turned]
  simp only [transpose, Int.add_comm]

theorem get_eq_value (h : grid.Sound) (hx : x < grid.cols) (hy : y < grid.rows)
    (hp : plane < grid.planes) : grid.get x y plane = grid.value x y plane := by
  obtain ⟨col, row, lt⟩ := h.terms hx hy hp
  have size := h.size_le
  unfold Coordinate.greatest at size
  rw [value_of_inside hx hy]
  simp only [get, Coordinate.mul, Coordinate.add, Extent.add]
  have fits {i : Int} (nonneg : 0 ≤ i) (le : i ≤ grid.cells.size) : Coordinate.Fits i := by
    simp only [Coordinate.Fits, Coordinate.least, Coordinate.greatest]
    omega
  rw [Coordinate.checked_of_fits (fits (by omega) (by omega)), Check.ok_bind,
    Coordinate.checked_of_fits (fits (by omega) (by omega)), Check.ok_bind,
    Coordinate.checked_of_fits (fits (by omega) (by omega)), Check.ok_bind,
    Extent.ofCoordinate_of_nonneg (by omega),
    Extent.checked_of_lt (by unfold Extent.modulus; omega), Check.ok_bind]

theorem read_eq_value (h : grid.Sound) (hx : x < grid.cols) (hy : y < grid.rows)
    (hp : plane < grid.planes) :
    grid.read (x * grid.colStride + y * grid.rowStride + plane) = grid.value x y plane := by
  obtain ⟨col, row, lt⟩ := h.terms hx hy hp
  rw [value_of_inside hx hy]
  unfold read
  rw [Extent.ofCoordinate_of_nonneg (by omega)]
  congr 1
  omega

end Strided

end ImageViews
