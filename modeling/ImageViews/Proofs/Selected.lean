import ImageViews.Proofs.Likeness
import ImageViews.Proofs.Refusals

/-!
# Images of selected planes

An image of selected planes has the extent of the full one, and cells like the selected ones. Both
are read in step, at coordinates and by cursors. Where there is no cell the strides of the two need
not match, but then no pixel is read, and the second cursor can walk all over its extent.
-/
namespace ImageViews

variable {σ τ α β : Type} {K : Pace} {S : σ → τ → Prop} {Alike : α → β → Prop}

/-- The second image has the selected planes of the first. -/
structure Image.Selected (K : Pace) (Alike : α → β → Prop) (image : Image α) (image' : Image β) :
    Prop where
  cols_eq : image.cols = image'.cols
  rows_eq : image.rows = image'.rows
  planes_eq : image.planes = K.sel.step * image'.planes
  chosen : K.sel.Chosen Alike image.cells image'.cells
  size_le : K.sel.step = 1 ∨ (image.cells.size : Int) ≤ Coordinate.greatest

/-- A cursor can be anywhere in the extent of the grid, and behind its ends. -/
def Strided.Walkable (grid : Strided α) : Prop :=
  ∀ x y : Int, 0 ≤ x ∧ x ≤ grid.cols → 0 ≤ y ∧ y ≤ grid.rows →
    Coordinate.Fits (x * grid.colStride) ∧ Coordinate.Fits (y * grid.rowStride) ∧
      Coordinate.Fits (x * grid.colStride + y * grid.rowStride)

/-- The second grid has the selected planes of the first. -/
structure Strided.Selected (K : Pace) (Alike : α → β → Prop) (grid : Strided α)
    (grid' : Strided β) : Prop where
  cols_eq : grid.cols = grid'.cols
  rows_eq : grid.rows = grid'.rows
  planes_eq : grid.planes = K.sel.step * grid'.planes
  chosen : K.sel.Chosen Alike grid.cells grid'.cells
  size_le : K.sel.step = 1 ∨ (grid.cells.size : Int) ≤ Coordinate.greatest
  strides : Addressing.Scaled K.sel grid'.planes grid.addressing grid'.addressing ∨
    K.sel.step ≠ 1 ∧ (grid.cells.size = 0 ∧ 0 < grid.planes) ∧ grid'.Walkable

section Whole

variable {T : Fault → Prop}

/-- An image shows all planes of itself. -/
theorem Image.selected_self (image : Image α) : image.Selected (.whole T) Eq image where
  cols_eq := rfl
  rows_eq := rfl
  planes_eq := (Pace.whole_mul _).symm
  chosen := Pace.whole_chosen.2 (Array.map_id _)
  size_le := .inl rfl

/-- A grid with each cell mapped. -/
theorem Strided.mapped_selected (grid : Strided α) {f : α → β} {cells : Array β}
    (mapped : grid.cells.map f = cells) :
    grid.Selected (.whole T) (fun a b => f a = b) { grid with cells } where
  cols_eq := rfl
  rows_eq := rfl
  planes_eq := (Pace.whole_mul _).symm
  chosen := Pace.whole_chosen.2 mapped
  size_le := .inl rfl
  strides := by
    refine .inl ⟨⟨?_, ?_⟩, ⟨rfl, rfl⟩, .inl rfl⟩ <;> exact (Int.one_mul _).symm

end Whole

namespace Strided

variable {grid : Strided α} {grid' : Strided β}

theorem Walkable.transpose (h : grid.Walkable) : grid.transpose.Walkable := by
  intro x y hx hy
  obtain ⟨col, row, sum⟩ := h y x hy hx
  exact ⟨row, col, by rwa [Int.add_comm]⟩

theorem Selected.transpose (h : grid.Selected K Alike grid') :
    grid.transpose.Selected K Alike grid'.transpose where
  cols_eq := h.rows_eq
  rows_eq := h.cols_eq
  planes_eq := h.planes_eq
  chosen := h.chosen
  size_le := h.size_le
  strides := h.strides.imp (fun ⟨⟨col, row⟩, planes⟩ => ⟨⟨row, col⟩, planes⟩)
    fun ⟨several, dead, walkable⟩ => ⟨several, dead, walkable.transpose⟩

theorem Selected.cursors (h : grid.Selected K Alike grid')
    (scaled : Addressing.Scaled K.sel grid'.planes grid.addressing grid'.addressing) :
    Sampler.Cursors K S Alike (.strided grid) (.strided grid') where
  scaled := scaled
  origin := .ok (Addressing.level_zero ..)
  read _ _ meets := .probe_check (h.chosen.read K.room h.size_le meets.2 meets.1)

theorem dead_of_empty (h : grid.cells.size = 0) : (Sampler.strided grid : Sampler σ α).Dead := by
  intro place st
  apply Yields.probe_check
  unfold Strided.read fetchCell
  rw [dif_neg (by omega)]
  trivial

/-- Grids with the same cells but for likeness. -/
theorem Selected.inStep (h : grid.Selected K Alike grid') (one : K.sel.step = 1)
    (same : grid.addressing = grid'.addressing) :
    Sampler.InStep K S Alike (.strided grid) (.strided grid') where
  cols_eq := h.cols_eq
  rows_eq := h.rows_eq
  planes_eq := h.planes_eq
  get x y i _ := by
    obtain ⟨col, row, -⟩ := Addressing.strides.inj same
    rw [K.sel.nth_of_one one]
    change Carries S K.Excused (liftM (grid.get x y i)) (liftM (grid'.get x y i)) Alike
    apply Carries.probe_check
    unfold Strided.get
    rw [col, row]
    apply Check.Carries.bind (.same _)
    rintro dx _ rfl
    apply Check.Carries.bind (.same _)
    rintro dy _ rfl
    apply Check.Carries.bind (.same _)
    rintro pixel _ rfl
    apply Check.Carries.bind (.same _)
    rintro offset _ rfl
    have cell := h.chosen.fetch (T := K.Excused) offset
    rwa [K.sel.nth_of_one one] at cell
  cursors := .inl (h.cursors (h.strides.resolve_right fun dead => dead.1 one))

end Strided

namespace Image

variable {image : Image α} {image' : Image β}

theorem Selected.fetch (h : image.Selected K Alike image') (x y i : Nat) :
    (image.fetch x y (K.sel.nth i)).Carries K.Excused (image'.fetch x y i) Alike := by
  have first := K.sel.first_lt
  unfold Image.fetch
  rw [h.cols_eq]
  apply Check.Carries.bind (.same _)
  rintro line _ rfl
  apply Check.Carries.bind (.same _)
  rintro pixel _ rfl
  have start : pixel * image.planes = K.sel.step * (pixel * image'.planes) + 0 := by
    rw [h.planes_eq, Nat.mul_left_comm, Nat.add_zero]
  have cell : pixel * image.planes + K.sel.nth i = K.sel.nth (pixel * image'.planes + i) := by
    unfold Selection.nth
    rw [start, Nat.mul_add]
    omega
  apply Check.Carries.bind (Selection.extent_carries K.room start (by omega))
  rintro _ _ ⟨rfl, rfl, -⟩
  apply Check.Carries.bind (Selection.extent_carries K.room cell first)
  rintro _ _ ⟨rfl, rfl, -⟩
  rw [cell]
  exact h.chosen.fetch _

theorem Selected.small (h : image.Selected K Alike image') (cells : 0 < image.cells.size) :
    K.sel.step = 1 ∨ (image.planes : Int) ≤ Coordinate.greatest ∧
      ((image.cols * image.planes : Nat) : Int) ≤ Coordinate.greatest := by
  refine h.size_le.imp_right fun size_le => ?_
  have count := image.size_cells ▸ cells
  have extents := image.extents_le
    (Nat.pos_of_ne_zero fun zero => by simp [zero] at count)
    (Nat.pos_of_ne_zero fun zero => by simp [zero] at count)
    (Nat.pos_of_ne_zero fun zero => by simp [zero] at count)
  omega

/-- The cells of an extent are counted on both sides. -/
theorem count_carries (cols rows planes : Nat) :
    (count cols rows (K.sel.step * planes)).Carries K.Excused (count cols rows planes)
      fun a b => a = cols * rows * (K.sel.step * planes) ∧ b = cols * rows * planes := by
  have positive := K.sel.step_pos
  apply Check.Carries.bind ((Check.Carries.same _).mono fun _ _ ok _ same =>
    And.intro same (Extent.checked_eq_ok.1 ok).2.symm)
  rintro area _ ⟨rfl, rfl⟩
  apply (Selection.extent_carries K.room (r := 0) (Nat.mul_left_comm ..) positive).mono
  rintro a b - - ⟨ha, hb, -⟩
  exact ⟨ha, hb⟩

/-- A cursor over an image without pixels adds up at most one line. -/
theorem walkable_of_empty (image : Image α) (empty : image.cols = 0 ∨ image.rows = 0)
    (line : ((image.cols * image.planes : Nat) : Int) ≤ Coordinate.greatest) :
    Strided.Walkable { cells := image.cells, cols := image.cols, rows := image.rows,
                       planes := image.planes, colStride := Coordinate.ofExtent image.planes,
                       rowStride := Coordinate.ofExtent (image.cols * image.planes) } := by
  intro x y hx hy
  simp only at hx hy ⊢
  have zero : Coordinate.Fits 0 := by decide
  by_cases none : image.cols = 0
  · obtain rfl : x = 0 := by omega
    have still : Coordinate.ofExtent (image.cols * image.planes) = 0 := by
      rw [none, Nat.zero_mul]
      rfl
    rw [still, Int.zero_mul, Int.mul_zero]
    exact ⟨zero, zero, zero⟩
  · obtain rfl : y = 0 := by omega
    have planes : image.planes ≤ image.cols * image.planes :=
      Nat.le_mul_of_pos_left _ (Nat.pos_of_ne_zero none)
    have reach : x * image.planes ≤ image.cols * image.planes :=
      Int.mul_le_mul_of_nonneg_right hx.2 (Int.natCast_nonneg _)
    have nonneg : 0 ≤ x * (image.planes : Int) := Int.mul_nonneg hx.1 (Int.natCast_nonneg _)
    rw [Coordinate.ofExtent_of_le (n := image.planes) (by omega), Int.zero_mul, Int.add_zero]
    unfold Coordinate.Fits Coordinate.least Coordinate.greatest at *
    omega

/-- A grid is laid over both images. -/
theorem Selected.strided (h : image.Selected K Alike image') :
    image.strided.Carries K.Excused image'.strided fun grid grid' =>
      grid.Selected K Alike grid' ∧ (grid'.cols = image'.cols ∧ grid'.rows = image'.rows) ∧
        grid'.planes = image'.planes := by
  have positive := K.sel.step_pos
  have planes_eq := h.planes_eq
  have count := image.size_cells
  have count' := image'.size_cells
  unfold Image.strided Strided.ofCells
  rw [h.cols_eq, h.rows_eq, planes_eq] at count ⊢
  apply Check.Carries.bind (count_carries ..)
  rintro _ _ ⟨rfl, rfl⟩
  apply Check.Carries.bind (.require (fun _ => Nat.le_of_eq count'.symm)
    (.inr fun _ => Nat.le_of_eq count.symm))
  rintro _ _ -
  apply Check.Carries.bind
    (Selection.extent_carries K.room (r := 0) (Nat.mul_left_comm ..) positive)
  rintro _ _ ⟨rfl, rfl, line⟩
  refine .ok ⟨⟨rfl, rfl, rfl, h.chosen, h.size_le, ?_⟩, ⟨rfl, rfl⟩, rfl⟩
  by_cases small : K.sel.step = 1 ∨ (image.planes : Int) ≤ Coordinate.greatest ∧
      ((image.cols * image.planes : Nat) : Int) ≤ Coordinate.greatest
  · rw [h.cols_eq, planes_eq] at small
    exact .inl (Addressing.scaled_rows small)
  -- words that do not hold the strides leave no cell to read
  have several : K.sel.step ≠ 1 := fun one => small (.inl one)
  have none : image.cells.size = 0 := Nat.eq_zero_of_not_pos (mt h.small small)
  have planes : 0 < image.planes := Nat.pos_of_ne_zero fun zero =>
    small (.inr (by rw [zero, Nat.mul_zero]; decide))
  have empty : image'.cols = 0 ∨ image'.rows = 0 := by
    rw [none, ← planes_eq] at count
    exact Nat.mul_eq_zero.1 ((Nat.mul_eq_zero.1 count.symm).resolve_right (by omega))
  refine .inr ⟨several, ⟨none, planes_eq ▸ planes⟩, ?_⟩
  apply image'.walkable_of_empty empty
  have line_le := Nat.mul_le_mul_right (image'.cols * image'.planes)
    (show 2 ≤ K.sel.step by omega)
  rw [Nat.mul_left_comm] at line
  unfold Extent.modulus at line
  unfold Coordinate.greatest
  omega

end Image

theorem Sampler.image_inStep {image : Image α} {image' : Image β}
    (h : image.Selected K Alike image') :
    Sampler.InStep K S Alike (.image image) (.image image') where
  cols_eq := h.cols_eq
  rows_eq := h.rows_eq
  planes_eq := h.planes_eq
  get x y i _ := .probe_check (h.fetch _ _ i)
  cursors := by
    have cursors (small : K.sel.step = 1 ∨ (image.planes : Int) ≤ Coordinate.greatest ∧
        ((image.cols * image.planes : Nat) : Int) ≤ Coordinate.greatest) :
        Sampler.Cursors K S Alike (.image image) (.image image') := by
      refine ⟨?_, ?_, fun _ _ meets => ?_⟩
      · change Addressing.Scaled K.sel image'.planes
          (.strides (Coordinate.ofExtent image.planes)
            (Coordinate.ofExtent (image.cols * image.planes)) 1)
          (.strides (Coordinate.ofExtent image'.planes)
            (Coordinate.ofExtent (image'.cols * image'.planes)) 1)
        rw [← h.cols_eq]
        rw [h.planes_eq] at small ⊢
        exact Addressing.scaled_rows small
      · apply Check.Carries.bind h.strided
        intro _ _ _
        exact .ok (Addressing.level_zero ..)
      · exact .probe_check (h.chosen.read K.room h.size_le meets.2 meets.1)
    by_cases one : K.sel.step = 1
    · exact .inl (cursors (.inl one))
    by_cases cells : 0 < image.cells.size
    · exact .inl (cursors (h.small cells))
    · refine .inr ⟨K.room.resolve_left one, fun place st => ?_⟩
      apply Yields.probe_check
      unfold fetchCell
      rw [dif_neg (by omega)]
      trivial

end ImageViews
