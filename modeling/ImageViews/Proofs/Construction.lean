import ImageViews.Image.Basic
import ImageViews.Kernel.Basic
import ImageViews.Proofs.Outcome

/-!
# Construction from given parts

Cells are accepted as an image, and coefficients as a kernel, if there are as many of them as the
extents multiply to. The products are words and are formed one factor after the other before they
are compared, so parts whose product leaves the word fault instead of being judged, even where a
later factor is zero.
-/
namespace ImageViews

variable {α κ : Type} {cols rows planes : Nat}

/-- A lifted check that succeeds gives its value. -/
theorem Check.lift_ok_bind {β γ : Type} (b : β) (f : β → Except Failure γ) :
    ((liftM (Except.ok b : Check β) : Except Failure β) >>= f) = f b := rfl

/-- A lifted check that faults is a failure by that fault. -/
theorem Check.lift_error_bind {β γ : Type} (fault : Fault) (f : β → Except Failure γ) :
    ((liftM (Except.error fault : Check β) : Except Failure β) >>= f) = .error (.fault fault) := rfl

theorem Extent.mul_of_lt {m n : Nat} (fits : m * n < modulus) : mul m n = .ok (m * n) :=
  checked_of_lt fits

theorem Extent.mul_of_not_lt {m n : Nat} (large : ¬m * n < modulus) :
    mul m n = .error .overflow := if_neg large

namespace Image

/-- The products on the way to the number of cells are words. -/
def Countable (cols rows planes : Nat) : Prop :=
  cols * rows < Extent.modulus ∧ cols * rows * planes < Extent.modulus

theorem count_of_countable (h : Countable cols rows planes) :
    count cols rows planes = .ok (cols * rows * planes) := by
  unfold count
  rw [Extent.mul_of_lt h.1, Check.ok_bind, Extent.mul_of_lt h.2]

theorem count_of_not_countable (h : ¬Countable cols rows planes) :
    count cols rows planes = .error .overflow := by
  unfold count
  by_cases area : cols * rows < Extent.modulus
  · rw [Extent.mul_of_lt area, Check.ok_bind, Extent.mul_of_not_lt fun all => h ⟨area, all⟩]
  · rw [Extent.mul_of_not_lt area, Check.error_bind]

theorem ofCells_of_size (counted : Countable cols rows planes) (cells : Array α)
    (size : cells.size = cols * rows * planes) :
    ofCells cols rows planes cells = .ok { cols, rows, planes, cells, size_cells := size } := by
  unfold ofCells
  rw [count_of_countable counted, Check.lift_ok_bind, dif_pos size]
  rfl

theorem ofCells_of_other_size (counted : Countable cols rows planes) (cells : Array α)
    (size : cells.size ≠ cols * rows * planes) :
    ofCells cols rows planes cells =
      .error (.error (.dataLength cells.size (cols * rows * planes))) := by
  unfold ofCells
  rw [count_of_countable counted, Check.lift_ok_bind, dif_neg size]
  rfl

theorem ofCells_of_not_countable (large : ¬Countable cols rows planes) (cells : Array α) :
    ofCells cols rows planes cells = .error (.fault .overflow) := by
  unfold ofCells
  rw [count_of_not_countable large, Check.lift_error_bind]

/-- What comes of cells, by the products of their extents and their number. -/
theorem ofCells_judged (cells : Array α) :
    ((∃ image, ofCells cols rows planes cells = .ok image ∧
        (image.cols = cols ∧ image.rows = rows ∧ image.planes = planes) ∧ image.cells = cells) ↔
      Countable cols rows planes ∧ cells.size = cols * rows * planes) ∧
    (ofCells cols rows planes cells =
        .error (.error (.dataLength cells.size (cols * rows * planes))) ↔
      Countable cols rows planes ∧ cells.size ≠ cols * rows * planes) ∧
    (ofCells cols rows planes cells = .error (.fault .overflow) ↔
      ¬Countable cols rows planes) := by
  by_cases counted : Countable cols rows planes
  · by_cases size : cells.size = cols * rows * planes
    · simp [ofCells_of_size counted cells size, counted, size]
    · simp [ofCells_of_other_size counted cells size, counted, size]
  · simp [ofCells_of_not_countable counted cells, counted]

end Image

namespace Kernel

/-- There are coefficients for every place of the rectangle, and at least one. -/
def Fills (cols rows : Nat) (coeffs : Array κ) : Prop :=
  (0 < cols ∧ 0 < rows) ∧ coeffs.size = cols * rows

theorem ofCoeffs_of_fills (area : cols * rows < Extent.modulus) (coeffs : Array κ)
    (h : Fills cols rows coeffs) :
    ofCoeffs cols rows coeffs = .ok {
      cols, rows, coeffs
      cols_pos := h.1.1
      rows_pos := h.1.2
      size_coeffs := h.2 } := by
  unfold ofCoeffs
  rw [dif_pos h.1, Extent.mul_of_lt area, Check.lift_ok_bind, dif_pos h.2]
  rfl

/-- An empty rectangle is refused before its product is formed. -/
theorem ofCoeffs_of_not_fills (area : cols * rows < Extent.modulus) (coeffs : Array κ)
    (h : ¬Fills cols rows coeffs) :
    ofCoeffs cols rows coeffs = .error (.error (.kernelSize cols rows coeffs.size)) := by
  unfold ofCoeffs
  by_cases nonempty : 0 < cols ∧ 0 < rows
  · rw [dif_pos nonempty, Extent.mul_of_lt area, Check.lift_ok_bind,
      dif_neg fun size => h ⟨nonempty, size⟩]
    rfl
  · rw [dif_neg nonempty]
    rfl

theorem ofCoeffs_of_not_lt (large : ¬cols * rows < Extent.modulus) (coeffs : Array κ) :
    ofCoeffs cols rows coeffs = .error (.fault .overflow) := by
  have nonempty : 0 < cols ∧ 0 < rows := by
    have product : 0 < cols * rows := by
      unfold Extent.modulus at large
      omega
    exact ⟨Nat.pos_of_mul_pos_right product, Nat.pos_of_mul_pos_left product⟩
  unfold ofCoeffs
  rw [dif_pos nonempty, Extent.mul_of_not_lt large, Check.lift_error_bind]

/-- What comes of coefficients, by the product of the extents and their number. -/
theorem ofCoeffs_judged (coeffs : Array κ) :
    ((∃ kernel, ofCoeffs cols rows coeffs = .ok kernel ∧
        (kernel.cols = cols ∧ kernel.rows = rows) ∧ kernel.coeffs = coeffs) ↔
      cols * rows < Extent.modulus ∧ Fills cols rows coeffs) ∧
    (ofCoeffs cols rows coeffs = .error (.error (.kernelSize cols rows coeffs.size)) ↔
      cols * rows < Extent.modulus ∧ ¬Fills cols rows coeffs) ∧
    (ofCoeffs cols rows coeffs = .error (.fault .overflow) ↔
      ¬cols * rows < Extent.modulus) := by
  by_cases area : cols * rows < Extent.modulus
  · by_cases fills : Fills cols rows coeffs
    · simp [ofCoeffs_of_fills area coeffs fills, area, fills]
    · simp [ofCoeffs_of_not_fills area coeffs fills, area, fills]
  · simp [ofCoeffs_of_not_lt area coeffs, area]

end Kernel

/-- Cells make an image and coefficients a kernel exactly if there are as many of them as their
extents multiply to, and are refused by name otherwise, as long as the products are words. Else
nothing is decided. -/
theorem constructed_iff_counted (cells : Array α) (coeffs : Array κ) :
    (((∃ image, Image.ofCells cols rows planes cells = .ok image ∧
          (image.cols = cols ∧ image.rows = rows ∧ image.planes = planes) ∧
            image.cells = cells) ↔
        Image.Countable cols rows planes ∧ cells.size = cols * rows * planes) ∧
      (Image.ofCells cols rows planes cells =
          .error (.error (.dataLength cells.size (cols * rows * planes))) ↔
        Image.Countable cols rows planes ∧ cells.size ≠ cols * rows * planes) ∧
      (Image.ofCells cols rows planes cells = .error (.fault .overflow) ↔
        ¬Image.Countable cols rows planes)) ∧
    ((∃ kernel, Kernel.ofCoeffs cols rows coeffs = .ok kernel ∧
        (kernel.cols = cols ∧ kernel.rows = rows) ∧ kernel.coeffs = coeffs) ↔
      cols * rows < Extent.modulus ∧ Kernel.Fills cols rows coeffs) ∧
    (Kernel.ofCoeffs cols rows coeffs = .error (.error (.kernelSize cols rows coeffs.size)) ↔
      cols * rows < Extent.modulus ∧ ¬Kernel.Fills cols rows coeffs) ∧
    (Kernel.ofCoeffs cols rows coeffs = .error (.fault .overflow) ↔
      ¬cols * rows < Extent.modulus) :=
  ⟨Image.ofCells_judged cells, Kernel.ofCoeffs_judged coeffs⟩

/-- No cells fill an extent without planes, and no coefficients a rectangle of any size, but the
products of large extents are formed first. -/
theorem large_extents_undecided :
    let cells : Array UInt8 := #[]
    let coeffs : Array Int32 := #[]
    (cells.size = 0x100000000 * 0x100000000 * 0 ∧
        Image.ofCells 0x100000000 0x100000000 0 cells = .error (.fault .overflow)) ∧
      ¬Kernel.Fills 0x100000000 0x100000000 coeffs ∧
      Kernel.ofCoeffs 0x100000000 0x100000000 coeffs = .error (.fault .overflow) :=
  ⟨⟨rfl, rfl⟩, fun fills => absurd fills.2 (by decide), rfl⟩

end ImageViews
