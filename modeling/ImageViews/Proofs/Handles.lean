import ImageViews.Handle
import ImageViews.Proofs.Stored

/-!
# Sound handles

A sound handle gives every position inside it a cell of its own, and computes that cell in words
that hold it. The handle of a whole buffer is sound, and so is every handle that is cut from a sound
one.
-/
namespace ImageViews

variable {n : Nat} {E : Fault → Prop}

namespace Handle

variable {handle : Handle n} {x y p : Nat}

/-- The positions of the handle. -/
def Inside (handle : Handle n) (x y p : Nat) : Prop :=
  x < handle.cols ∧ y < handle.rows ∧ p < handle.planes

instance (handle : Handle n) (x y p : Nat) : Decidable (handle.Inside x y p) :=
  inferInstanceAs (Decidable (_ ∧ _ ∧ _))

/-- The cell of a position in integer arithmetic. -/
def address (handle : Handle n) (x y p : Nat) : Nat :=
  handle.start + (x * handle.colStride + y * handle.rowStride).toNat + p

/-- The positions of the handle lie in the buffer, each in a cell of its own. -/
structure Sound (handle : Handle n) : Prop where
  size_le : (n : Int) ≤ Coordinate.greatest
  reach : ∀ {x y p : Nat}, handle.Inside x y p →
    0 ≤ handle.colStride ∧ 0 ≤ handle.rowStride ∧ handle.address x y p < n
  injective : ∀ {x y p x' y' p' : Nat}, handle.Inside x y p → handle.Inside x' y' p' →
    handle.address x y p = handle.address x' y' p' → x = x' ∧ y = y' ∧ p = p'

/-- The handle of a buffer that is a single row of pixels of one plane. -/
def row (n : Nat) : Handle n where
  start := 0
  cols := n
  rows := 1
  planes := 1
  colStride := 1
  rowStride := n
  start_le := Nat.zero_le n

theorem row_address (inside : (row n).Inside x y p) :
    (row n).address x y p = x ∧ x < n ∧ y = 0 ∧ p = 0 := by
  obtain ⟨hx, hy, hp⟩ := inside
  obtain rfl : y = 0 := Nat.lt_one_iff.1 hy
  obtain rfl : p = 0 := Nat.lt_one_iff.1 hp
  exact ⟨by simp [address, row], hx, rfl, rfl⟩

theorem row_sound (hn : (n : Int) ≤ Coordinate.greatest) : (row n).Sound where
  size_le := hn
  reach inside := by
    obtain ⟨address, lt, -⟩ := row_address inside
    exact ⟨Int.le_of_lt Int.zero_lt_one, Int.natCast_nonneg n, address.symm ▸ lt⟩
  injective inside inside' equal := by
    have := row_address inside
    have := row_address inside'
    omega

theorem Sound.terms (hs : handle.Sound) (inside : handle.Inside x y p) :
    0 ≤ (x * handle.colStride : Int) ∧ 0 ≤ (y * handle.rowStride : Int) ∧
      handle.start + (x * handle.colStride + y * handle.rowStride) + p < (n : Int) := by
  obtain ⟨col, row, lt⟩ := hs.reach inside
  have hcol : 0 ≤ (x * handle.colStride : Int) := Int.mul_nonneg (by omega) col
  have hrow : 0 ≤ (y * handle.rowStride : Int) := Int.mul_nonneg (by omega) row
  unfold address at lt
  omega

/-- Neighbours have different cells, so no stride is zero where it is needed. -/
theorem Sound.col_le (hs : handle.Sound) (inside : handle.Inside x y p) :
    (x : Int) ≤ x * handle.colStride := by
  obtain ⟨col, row, lt⟩ := hs.reach inside
  by_cases hx : x = 0
  · simp [hx]
  have moves : handle.colStride ≠ 0 := by
    intro still
    have first : handle.Inside 0 y p := ⟨by have := inside.1; omega, inside.2⟩
    have := hs.injective inside first (by simp [address, still])
    omega
  calc (x : Int) = x * 1 := by omega
    _ ≤ x * handle.colStride := Int.mul_le_mul_of_nonneg_left (by omega) (by omega)

theorem Sound.row_le (hs : handle.Sound) (inside : handle.Inside x y p) :
    (y : Int) ≤ y * handle.rowStride := by
  obtain ⟨col, row, lt⟩ := hs.reach inside
  by_cases hy : y = 0
  · simp [hy]
  have moves : handle.rowStride ≠ 0 := by
    intro still
    have first : handle.Inside x 0 p := ⟨inside.1, by have := inside.2.1; omega, inside.2.2⟩
    have := hs.injective inside first (by simp [address, still])
    omega
  calc (y : Int) = y * 1 := by omega
    _ ≤ y * handle.rowStride := Int.mul_le_mul_of_nonneg_left (by omega) (by omega)

/-- The coordinates of a position fit signed words. -/
theorem Sound.coords_le (hs : handle.Sound) (inside : handle.Inside x y p) :
    (x : Int) ≤ Coordinate.greatest ∧ (y : Int) ≤ Coordinate.greatest ∧
      (p : Int) ≤ Coordinate.greatest := by
  obtain ⟨col, row, lt⟩ := hs.terms inside
  have := hs.col_le inside
  have := hs.row_le inside
  have := hs.size_le
  omega

/-- The distance of a position from the start, computed in words that hold it. -/
theorem Sound.offset_eq (hs : handle.Sound) (inside : handle.Inside x y p) :
    handle.offset x y p =
      .ok ((x * handle.colStride + y * handle.rowStride).toNat + p) := by
  obtain ⟨col, row, lt⟩ := hs.terms inside
  obtain ⟨hx, hy, hp⟩ := hs.coords_le inside
  have size := hs.size_le
  unfold Coordinate.greatest at size
  simp only [offset, Coordinate.mul, Coordinate.add, Extent.add]
  rw [Coordinate.ofExtent_of_le hx, Coordinate.ofExtent_of_le hy,
    Coordinate.checked_of_fits
      (by simp [Coordinate.Fits, Coordinate.least, Coordinate.greatest]; omega), Check.ok_bind,
    Coordinate.checked_of_fits
      (by simp [Coordinate.Fits, Coordinate.least, Coordinate.greatest]; omega), Check.ok_bind,
    Coordinate.checked_of_fits
      (by simp [Coordinate.Fits, Coordinate.least, Coordinate.greatest]; omega), Check.ok_bind,
    Extent.ofCoordinate_of_nonneg (by omega),
    Extent.checked_of_lt (by unfold Extent.modulus; omega)]

theorem Sound.cell_eq (hs : handle.Sound) (inside : handle.Inside x y p) :
    handle.cell x y p = .ok ⟨handle.address x y p, (hs.reach inside).2.2⟩ := by
  have lt := (hs.reach inside).2.2
  have sum : handle.start + ((x * handle.colStride + y * handle.rowStride).toNat + p) =
      handle.address x y p := (Nat.add_assoc ..).symm
  unfold cell
  rw [hs.offset_eq inside, Check.ok_bind]
  simp only [sum, lt, ↓reduceDIte]
  rfl

section Transpose

theorem address_transpose : handle.transpose.address y x p = handle.address x y p := by
  simp only [address, transpose, Int.add_comm]

theorem inside_transpose : handle.transpose.Inside y x p ↔ handle.Inside x y p := by
  simp only [Inside, transpose]
  omega

theorem Sound.transpose (hs : handle.Sound) : handle.transpose.Sound where
  size_le := hs.size_le
  reach inside := by
    obtain ⟨col, row, lt⟩ := hs.reach (inside_transpose.1 inside)
    rw [address_transpose]
    exact ⟨row, col, lt⟩
  injective inside inside' equal := by
    rw [address_transpose, address_transpose] at equal
    have := hs.injective (inside_transpose.1 inside) (inside_transpose.1 inside') equal
    omega

end Transpose

section Window

variable {w : Handle n} {cols rows : Nat}

/-- The handle `w` is the part of `handle` with the given corner and extent. -/
structure IsWindow (w handle : Handle n) (x y cols rows : Nat) : Prop where
  cols_eq : w.cols = cols
  rows_eq : w.rows = rows
  planes_eq : w.planes = handle.planes
  right_le : x + cols ≤ handle.cols
  bottom_le : y + rows ≤ handle.rows
  strides_eq : w.colStride = handle.colStride ∧ w.rowStride = handle.rowStride
  start_eq : ∀ p, handle.Inside x y p → 0 < cols → 0 < rows → w.start = handle.address x y 0

theorem IsWindow.inside (h : w.IsWindow handle x y cols rows) {x' y' : Nat}
    (inside : w.Inside x' y' p) : handle.Inside (x + x') (y + y') p := by
  obtain ⟨hx, hy, hp⟩ := inside
  have := h.right_le
  have := h.bottom_le
  rw [h.cols_eq] at hx
  rw [h.rows_eq] at hy
  rw [h.planes_eq] at hp
  exact ⟨by omega, by omega, hp⟩

theorem IsWindow.address (h : w.IsWindow handle x y cols rows) (hs : handle.Sound) {x' y' : Nat}
    (inside : w.Inside x' y' p) : w.address x' y' p = handle.address (x + x') (y + y') p := by
  have last := h.inside inside
  have corner : handle.Inside x y p :=
    ⟨Nat.lt_of_le_of_lt (Nat.le_add_right ..) last.1,
      Nat.lt_of_le_of_lt (Nat.le_add_right ..) last.2.1, last.2.2⟩
  obtain ⟨hx, hy, -⟩ := inside
  have start := h.start_eq p corner (by rw [← h.cols_eq]; omega) (by rw [← h.rows_eq]; omega)
  obtain ⟨col, row, -⟩ := hs.reach corner
  have corner_col : 0 ≤ (x * handle.colStride : Int) := Int.mul_nonneg (by omega) col
  have corner_row : 0 ≤ (y * handle.rowStride : Int) := Int.mul_nonneg (by omega) row
  have further_col : 0 ≤ (x' * handle.colStride : Int) := Int.mul_nonneg (by omega) col
  have further_row : 0 ≤ (y' * handle.rowStride : Int) := Int.mul_nonneg (by omega) row
  unfold Handle.address at start ⊢
  rw [start, h.strides_eq.1, h.strides_eq.2]
  simp only [Int.natCast_add, Int.add_mul]
  omega

theorem IsWindow.sound (h : w.IsWindow handle x y cols rows) (hs : handle.Sound) : w.Sound where
  size_le := hs.size_le
  reach inside := by
    rw [h.strides_eq.1, h.strides_eq.2, h.address hs inside]
    exact hs.reach (h.inside inside)
  injective inside inside' equal := by
    rw [h.address hs inside, h.address hs inside'] at equal
    have := hs.injective (h.inside inside) (h.inside inside') equal
    omega

/-- A window that lies in the handle can be cut from it. Where there are no planes the start of the
window stands for nothing. -/
theorem window_yields (hs : handle.Sound)
    (room : Tolerant E ∨ (x + cols ≤ handle.cols ∧ y + rows ≤ handle.rows) ∧
      (handle.cols < Extent.modulus ∧ handle.rows < Extent.modulus) ∧
      (0 < handle.planes ∨ handle.colStride = 0 ∧ handle.rowStride = 0)) :
    (handle.window x y cols rows).Yields E fun w =>
      w.Sound ∧ w.IsWindow handle x y cols rows := by
  have tolerant {fault : Fault} : Tolerant E → E fault := fun h => h fault
  unfold Handle.window
  refine Check.Yields.bind (Extent.add_yields (room.imp tolerant fun h => by omega) ?_)
  intro _
  refine Check.Yields.bind (Check.Yields.require (room.imp tolerant fun h => h.1.1) ?_)
  intro right
  refine Check.Yields.bind (Extent.add_yields (room.imp tolerant fun h => by omega) ?_)
  intro _
  refine Check.Yields.bind (Check.Yields.require (room.imp tolerant fun h => h.1.2) ?_)
  intro bottom
  have cut (offset : Nat) (le : E .outOfBounds ∨ handle.start + offset ≤ n)
      (start : ∀ p, handle.Inside x y p → 0 < cols → 0 < rows →
        handle.start + offset = handle.address x y 0) :
      Check.Yields E (if h : handle.start + offset ≤ n then
        .ok { handle with start := handle.start + offset, cols, rows, start_le := h }
        else .error .outOfBounds) fun w => w.Sound ∧ w.IsWindow handle x y cols rows := by
    split
    next h =>
      have window : IsWindow
          { handle with start := handle.start + offset, cols, rows, start_le := h }
          handle x y cols rows := ⟨rfl, rfl, rfl, right, bottom, ⟨rfl, rfl⟩, start⟩
      exact Check.Yields.ok ⟨window.sound hs, window⟩
    next outside => exact le.resolve_right outside
  by_cases empty : cols = 0 ∨ rows = 0
  · rw [if_pos empty]
    exact cut 0 (.inr handle.start_le) fun _ _ _ _ => by omega
  rw [if_neg empty]
  by_cases planes : 0 < handle.planes
  · have corner : handle.Inside x y 0 := ⟨by omega, by omega, planes⟩
    have lt := (hs.reach corner).2.2
    rw [hs.offset_eq corner, Check.ok_bind]
    unfold address at lt
    exact cut _ (.inr (by omega)) fun _ _ _ _ => rfl
  · have no_positions (p : Nat) (inside : handle.Inside x y p) : False := planes (by
      have := inside.2.2
      omega)
    rcases room with tolerant | ⟨-, -, many | ⟨col, row⟩⟩
    · exact Check.Yields.bind (.of_tolerable (fun fault _ => tolerant fault) fun offset _ =>
        cut offset (.inl (tolerant _)) fun p inside => (no_positions p inside).elim)
    · exact absurd many planes
    · have offset : handle.offset x y 0 = .ok 0 := by
        unfold Handle.offset
        rw [col, row]
        simp [Coordinate.mul, Coordinate.add, Coordinate.checked, Coordinate.Fits,
          Coordinate.least, Coordinate.greatest, Extent.add, Extent.checked, Extent.ofCoordinate,
          Extent.modulus]
      rw [offset, Check.ok_bind]
      exact cut 0 (.inr handle.start_le) fun p inside => (no_positions p inside).elim

end Window

section Whole

/-- The handle of a whole buffer numbers the cells as an image does. -/
structure IsWhole (handle : Handle n) (cols rows planes : Nat) : Prop where
  cols_eq : handle.cols = cols
  rows_eq : handle.rows = rows
  planes_eq : handle.planes = planes
  strides_eq : planes = 0 → handle.colStride = 0 ∧ handle.rowStride = 0
  address_eq : ∀ {x y p}, handle.Inside x y p →
    handle.address x y p = (y * cols + x) * planes + p

theorem whole_yields {cols rows planes : Nat} (hn : (n : Int) ≤ Coordinate.greatest)
    (room : Tolerant E ∨ (cols * rows < Extent.modulus ∧ cols * planes < Extent.modulus) ∧
      cols * rows * planes ≤ n) :
    (whole n cols rows planes).Yields E fun handle =>
      handle.Sound ∧ handle.IsWhole cols rows planes := by
  have tolerant {fault : Fault} : Tolerant E → E fault := fun h => h fault
  have size : n < Extent.modulus := by
    unfold Coordinate.greatest at hn
    unfold Extent.modulus
    omega
  refine Check.Yields.bind (Check.Yields.bind (Extent.mul_yields ?_ fun _ => ?_))
  · exact room.imp tolerant fun h => h.1.1
  apply Extent.mul_yields (room.imp tolerant fun h => by omega)
  intro _
  refine Check.Yields.bind (Check.Yields.require (room.imp tolerant fun h => h.2) ?_)
  intro needed
  refine Check.Yields.bind (Extent.mul_yields (room.imp tolerant fun h => h.1.2) ?_)
  intro _
  -- an image of the same extent has its pixels in the same cells
  let image : Image Unit := .ofVector (Vector.replicate (cols * rows * planes) ())
  have addressable : image.Addressable := by
    unfold Image.Addressable
    rw [image.size_cells]
    change ((cols * rows * planes : Nat) : Int) ≤ _
    omega
  have strides {x y p : Nat} (hx : x < cols) (hy : y < rows) (hp : p < planes) :
      0 ≤ Coordinate.ofExtent planes ∧ 0 ≤ Coordinate.ofExtent (cols * planes) ∧
        0 + (x * Coordinate.ofExtent planes + y * Coordinate.ofExtent (cols * planes)).toNat + p =
          image.index x y p := by
    have address : (x * Coordinate.ofExtent planes + y * Coordinate.ofExtent (cols * planes) + p :
        Int) = image.index x y p := Image.index_eq_strides addressable hx hy hp
    obtain ⟨-, -, hplanes, hline⟩ := image.extents_le (Nat.zero_lt_of_lt hx)
      (Nat.zero_lt_of_lt hy) (Nat.zero_lt_of_lt hp)
    have col := Coordinate.ofExtent_of_le (n := planes)
      (Int.le_trans (Int.ofNat_le.2 hplanes) addressable)
    have row := Coordinate.ofExtent_of_le (n := cols * planes)
      (Int.le_trans (Int.ofNat_le.2 hline) addressable)
    have : 0 ≤ (x * Coordinate.ofExtent planes : Int) := Int.mul_nonneg (by omega) (by omega)
    have : 0 ≤ (y * Coordinate.ofExtent (cols * planes) : Int) :=
      Int.mul_nonneg (by omega) (by omega)
    omega
  refine Check.Yields.ok ⟨⟨hn, ?_, ?_⟩, ⟨rfl, rfl, rfl, ?_, fun inside => ?_⟩⟩
  · rintro x y p ⟨hx, hy, hp⟩
    obtain ⟨col, row, same⟩ := strides hx hy hp
    have inside := image.index_lt hx hy hp
    rw [image.size_cells, ← same] at inside
    exact ⟨col, row, Nat.lt_of_lt_of_le inside needed⟩
  · rintro x y p x' y' p' ⟨hx, hy, hp⟩ ⟨hx', hy', hp'⟩ equal
    apply image.index_injective hx hp hx' hp'
    rw [← (strides hx hy hp).2.2, ← (strides hx' hy' hp').2.2]
    exact equal
  · rintro rfl
    exact ⟨rfl, rfl⟩
  · exact (strides inside.1 inside.2.1 inside.2.2).2.2

end Whole

end Handle

end ImageViews
