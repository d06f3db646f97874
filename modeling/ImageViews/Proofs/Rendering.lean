import ImageViews.Proofs.Painting

/-!
# Rendered images

A new image displays the pixels that were computed for its cells, or painted into them. Making it
takes a buffer, so the extent has to be one that can be stored.
-/
namespace ImageViews

variable {α : Type} {E : Fault → Prop} {cols rows planes : Nat}

section Tabulate

variable {f : Nat → Check α} {n i : Nat}

theorem appendCells_yields (cells : Array α)
    (hf : ∀ j, i ≤ j → j < i + n → (f j).Tolerable E) :
    (appendCells f n i cells).Yields E fun result =>
      (∀ j, j < cells.size → result[j]? = cells[j]?) ∧
        ∀ j, j < n → fetchCell result (cells.size + j) = f (i + j) := by
  induction n generalizing i cells with
  | zero => exact Check.Yields.ok ⟨fun _ _ => rfl, fun j hj => by omega⟩
  | succ n ih =>
    refine Check.Yields.bind (.of_tolerable (hf i (Nat.le_refl _) (by omega)) ?_)
    intro a ha
    apply (ih (i := i + 1) (cells.push a) fun j hj hj' => hf j (by omega) (by omega)).mono
    rintro result ⟨kept, appended⟩
    constructor
    · intro j hj
      rw [kept j (by simp; omega), Array.getElem?_push_lt hj]
      simp [hj]
    · intro j hj
      cases j with
      | zero =>
        have first := kept cells.size (by simp)
        rw [Array.getElem?_push_size] at first
        obtain ⟨lt, value⟩ := Array.getElem?_eq_some_iff.1 first
        rw [Nat.add_zero, Nat.add_zero, ha, fetchCell_of_lt lt, value]
      | succ j =>
        have later := appended j (by omega)
        rw [Array.size_push] at later
        simpa [Nat.add_assoc, Nat.add_comm 1] using later

theorem tabulate_yields (hf : ∀ j, j < n → (f j).Tolerable E) :
    (tabulate f n).Yields E fun cells => ∀ j, j < n → fetchCell cells.toArray j = f j := by
  have all := appendCells_yields (n := n) (i := 0) #[] fun j _ hj => hf j (by omega)
  unfold tabulate
  split
  next cells h =>
    apply Check.Yields.ok
    intro j hj
    simpa using (all.value h).2 j hj
  next fault h => exact all.tolerable fault h

end Tabulate

/-- The extent can be counted and its buffer addressed. -/
structure Storable (bytes cols rows planes : Nat) : Prop where
  pixels_lt : cols * rows < Extent.modulus
  line_lt : cols * planes < Extent.modulus
  bytes_le : (bytes * (cols * rows * planes) : Nat) ≤ Coordinate.greatest

instance (bytes cols rows planes : Nat) : Decidable (Storable bytes cols rows planes) :=
  decidable_of_iff (cols * rows < Extent.modulus ∧ cols * planes < Extent.modulus ∧
    (bytes * (cols * rows * planes) : Nat) ≤ Coordinate.greatest)
    ⟨fun ⟨pixels, line, bytes⟩ => ⟨pixels, line, bytes⟩, fun ⟨pixels, line, bytes⟩ =>
      ⟨pixels, line, bytes⟩⟩

/-- The extent can be counted, and there is room for its cells or a lack of it is tolerated. -/
structure Counted (E : Fault → Prop) (bytes cols rows planes : Nat) : Prop where
  pixels_lt : cols * rows < Extent.modulus
  cells_lt : cols * rows * planes < Extent.modulus
  bytes_le : E .capacity ∨ (bytes * (cols * rows * planes) : Nat) ≤ Coordinate.greatest

/-- The extent and its lines can be counted, and there is room for its cells or a lack of it is
tolerated. -/
structure Renderable (E : Fault → Prop) (bytes cols rows planes : Nat) : Prop extends
    Counted E bytes cols rows planes where
  line_lt : cols * planes < Extent.modulus

theorem Storable.renderable {bytes : Nat} (h : Storable bytes cols rows planes)
    (hbytes : 0 < bytes) : Renderable E bytes cols rows planes where
  pixels_lt := h.pixels_lt
  cells_lt := by
    have := Nat.le_mul_of_pos_left (cols * rows * planes) hbytes
    have := h.bytes_le
    unfold Coordinate.greatest at this
    unfold Extent.modulus
    omega
  bytes_le := .inr h.bytes_le
  line_lt := h.line_lt

theorem allocate_yields {bytes : Nat} (hbytes : 0 < bytes)
    (room : Tolerant E ∨ Counted E bytes cols rows planes) :
    (Image.allocate bytes cols rows planes).Yields E fun _ =>
      ((cols * rows * planes : Nat) : Int) ≤ Coordinate.greatest := by
  have count_le : cols * rows * planes ≤ bytes * (cols * rows * planes) :=
    Nat.le_mul_of_pos_left _ hbytes
  refine Check.Yields.bind (Check.Yields.bind (Extent.mul_yields ?_ fun _ => ?_))
  · exact room.imp (· _) (·.pixels_lt)
  refine Extent.mul_yields (room.imp (· _) (·.cells_lt)) fun _ => ?_
  · refine Check.Yields.require (room.elim (.inl <| · _) fun counted => ?_) fun bytes_le => ?_
    · simpa using counted.bytes_le
    · rw [← Int.natCast_mul] at bytes_le
      omega

namespace Image

variable {image : Image α} {pixel : Nat → Nat → Nat → Check α}

/-- The image has the given extent and shows the given pixels. -/
structure Displays (image : Image α) (cols rows planes : Nat)
    (pixel : Nat → Nat → Nat → Check α) : Prop where
  cols_eq : image.cols = cols
  rows_eq : image.rows = rows
  planes_eq : image.planes = planes
  addressable : image.Addressable
  value_eq : ∀ {x y p : Nat}, x < cols → y < rows → p < planes →
    image.value x y p = pixel x y p

theorem Displays.value_ok (h : image.Displays cols rows planes pixel) {x y p : Nat}
    (hx : x < cols) (hy : y < rows) (hp : p < planes) : ∃ a, pixel x y p = .ok a := by
  obtain ⟨rfl, rfl, rfl, -, value_eq⟩ := h
  rw [← value_eq hx hy hp, value_of_inside hx hy hp, fetchCell_of_lt (image.index_lt hx hy hp)]
  exact ⟨_, rfl⟩

theorem Displays.congr (h : image.Displays cols rows planes pixel)
    {pixel' : Nat → Nat → Nat → Check α}
    (same : ∀ x y p a, x < cols → y < rows → p < planes → pixel x y p = .ok a →
      pixel' x y p = .ok a) : image.Displays cols rows planes pixel' where
  cols_eq := h.cols_eq
  rows_eq := h.rows_eq
  planes_eq := h.planes_eq
  addressable := h.addressable
  value_eq {x y p} hx hy hp := by
    obtain ⟨a, ha⟩ := h.value_ok hx hy hp
    rw [h.value_eq hx hy hp, ha, same x y p a hx hy hp ha]

theorem Displays.fetch_eq (h : image.Displays cols rows planes pixel) {x y p : Nat}
    (hx : x < cols) (hy : y < rows) (hp : p < planes) : image.fetch x y p = pixel x y p := by
  rw [← h.value_eq hx hy hp]
  obtain ⟨rfl, rfl, rfl, addressable, -⟩ := h
  exact fetch_eq_value addressable hx hy hp

theorem position_lt {x y p : Nat} (hx : x < cols) (hy : y < rows) (hp : p < planes) :
    (y * cols + x) * planes + p < cols * rows * planes := by
  have inside := index_lt (ofVector (Vector.replicate (cols * rows * planes) ())) hx hy hp
  rwa [size_cells] at inside

/-- Every cell has a position. -/
theorem position_of_lt {i : Nat} (hi : i < cols * rows * planes) :
    i / planes % cols < cols ∧ i / planes / cols < rows ∧ i % planes < planes ∧
      (i / planes / cols * cols + i / planes % cols) * planes + i % planes = i := by
  have planes_pos : 0 < planes := Nat.pos_of_ne_zero fun h => by simp [h] at hi
  have cols_pos : 0 < cols := Nat.pos_of_ne_zero fun h => by simp [h] at hi
  refine ⟨Nat.mod_lt _ cols_pos, ?_, Nat.mod_lt _ planes_pos, ?_⟩
  · rw [Nat.div_div_eq_div_mul, Nat.div_lt_iff_lt_mul (Nat.mul_pos planes_pos cols_pos)]
    calc i < cols * rows * planes := hi
      _ = rows * (planes * cols) := by rw [Nat.mul_comm cols, Nat.mul_assoc, Nat.mul_comm cols]
  · rw [Nat.div_add_mod', Nat.div_add_mod']

/-- The extents of pixels that can be addressed fit signed words. -/
theorem extents_fit (hcols : 0 < cols) (hrows : 0 < rows) (hplanes : 0 < planes)
    (h : ((cols * rows * planes : Nat) : Int) ≤ Coordinate.greatest) :
    (cols : Int) ≤ Coordinate.greatest ∧ (rows : Int) ≤ Coordinate.greatest ∧
      (planes : Int) ≤ Coordinate.greatest := by
  let blank : Image Unit := ofVector (Vector.replicate (cols * rows * planes) ())
  have extents : blank.cols ≤ _ ∧ _ := extents_le hcols hrows hplanes
  rw [size_cells] at extents
  simp only [blank, ofVector] at extents
  omega

theorem Displays.extents_fit (h : image.Displays cols rows planes pixel) (hcols : 0 < cols)
    (hrows : 0 < rows) (hplanes : 0 < planes) :
    (cols : Int) ≤ Coordinate.greatest ∧ (rows : Int) ≤ Coordinate.greatest ∧
      (planes : Int) ≤ Coordinate.greatest := by
  obtain ⟨rfl, rfl, rfl, addressable, -⟩ := h
  unfold Addressable at addressable
  rw [size_cells] at addressable
  exact Image.extents_fit hcols hrows hplanes addressable

/-- An image is determined by what it displays. -/
theorem Displays.unique {image' : Image α} (h : image.Displays cols rows planes pixel)
    (h' : image'.Displays cols rows planes pixel) : image = image' := by
  obtain ⟨rfl, rfl, rfl, -, value⟩ := h
  obtain ⟨cols_eq, rows_eq, planes_eq, -, value'⟩ := h'
  have size : image.cells.size = image'.cells.size := by
    rw [image.size_cells, image'.size_cells, cols_eq, rows_eq, planes_eq]
  refine ext cols_eq.symm rows_eq.symm planes_eq.symm (Array.ext size ?_)
  intro i hi hi'
  obtain ⟨hx, hy, hp, position⟩ := position_of_lt (image.size_cells ▸ hi)
  have same := (value hx hy hp).trans (value' hx hy hp).symm
  rw [value_of_inside hx hy hp, value_of_inside (cols_eq.symm ▸ hx) (rows_eq.symm ▸ hy)
    (planes_eq.symm ▸ hp)] at same
  unfold index at same
  rw [cols_eq, planes_eq, position, fetchCell_of_lt hi, fetchCell_of_lt hi'] at same
  exact Except.ok.inj same

/-- No pixel is fetched from an image without cells. -/
theorem fetch_empty {x y p : Nat} (h : image.cells.size = 0) (a : α) :
    image.fetch x y p ≠ .ok a := by
  have fetched : (image.fetch x y p).Yields (fun _ => True) fun _ => False := by
    refine Check.Yields.bind (Extent.mul_yields (.inl trivial) ?_)
    intro _
    refine Check.Yields.bind (Extent.add_yields (.inl trivial) ?_)
    intro _
    refine Check.Yields.bind (Extent.mul_yields (.inl trivial) ?_)
    intro _
    refine Check.Yields.bind (Extent.add_yields (.inl trivial) ?_)
    intro _
    unfold fetchCell
    rw [dif_neg (by omega)]
    trivial
  exact fun ha => fetched.value ha

/-- The image over cells that hold the pixels in reading order. -/
theorem ofVector_displays {cells : Vector α (cols * rows * planes)}
    (addressable : ((cols * rows * planes : Nat) : Int) ≤ Coordinate.greatest)
    (hcells : ∀ x y p, x < cols → y < rows → p < planes →
      fetchCell cells.toArray ((y * cols + x) * planes + p) = pixel x y p) :
    (ofVector cells).Displays cols rows planes pixel where
  cols_eq := rfl
  rows_eq := rfl
  planes_eq := rfl
  addressable := by
    unfold Addressable
    rwa [size_cells]
  value_eq {x y p} hx hy hp := by
    have stored : (ofVector cells).value x y p = _ := value_of_inside hx hy hp
    rw [stored, ← hcells x y p hx hy hp]
    rfl

theorem generate_yields {bytes : Nat} (hbytes : 0 < bytes)
    (room : Tolerant E ∨ Counted E bytes cols rows planes)
    (hpixel : ∀ x y p, x < cols → y < rows → p < planes → (pixel x y p).Tolerable E) :
    (generate bytes cols rows planes pixel).Yields E
      (·.Displays cols rows planes pixel) := by
  refine Check.Yields.bind ((allocate_yields hbytes room).mono ?_)
  intro _ addressable
  rw [tabulatePixels_eq]
  refine Check.Yields.bind ((tabulate_yields fun i hi => ?_).mono fun cells hcells => ?_)
  · obtain ⟨hx, hy, hp, -⟩ := position_of_lt hi
    exact hpixel _ _ _ hx hy hp
  · refine Check.Yields.ok (ofVector_displays addressable ?_)
    intro x y p hx hy hp
    rw [hcells _ (position_lt hx hy hp)]
    have pixel_eq : ((y * cols + x) * planes + p) / planes = y * cols + x := by
      rw [Nat.mul_comm _ planes, Nat.mul_add_div (by omega), Nat.div_eq_of_lt hp, Nat.add_zero]
    have row_eq : (y * cols + x) / cols = y := by
      rw [Nat.mul_comm, Nat.mul_add_div (by omega), Nat.div_eq_of_lt hx, Nat.add_zero]
    have col_eq : (y * cols + x) % cols = x := by
      rw [Nat.mul_comm, Nat.mul_add_mod, Nat.mod_eq_of_lt hx]
    have plane_eq : ((y * cols + x) * planes + p) % planes = p := by
      rw [Nat.mul_comm _ planes, Nat.mul_add_mod, Nat.mod_eq_of_lt hp]
    rw [pixel_eq, row_eq, col_eq, plane_eq]

theorem blank_yields {storage : Storage α}
    (room : Tolerant E ∨ Counted E storage.bytes cols rows planes) :
    (blank storage cols rows planes).Yields E
      (·.Displays cols rows planes fun _ _ _ => .ok storage.blank) := by
  refine Check.Yields.bind ((allocate_yields storage.bytes_pos room).mono ?_)
  intro _ addressable
  refine Check.Yields.ok (ofVector_displays addressable ?_)
  intro x y p hx hy hp
  rw [fetchCell_toArray (position_lt hx hy hp)]
  simp

/-- What is painted into the cells of a blank image is what the image displays. -/
theorem render_yields {storage : Storage α} {log : Log}
    {paint : Handle (cols * rows * planes) → Paint Log α (cols * rows * planes) Unit}
    (room : Tolerant E ∨ Renderable E storage.bytes cols rows planes)
    (hpaint : ((cols * rows * planes : Nat) : Int) ≤ Coordinate.greatest →
      ∀ handle, handle.Sound → handle.IsWhole cols rows planes → ∀ log,
      Yields (Failure.Tolerated E) (paint handle) (Vector.replicate _ storage.blank, log) fun _ s =>
         handle.Painted handle.Inside pixel (Vector.replicate _ storage.blank) s.1) :
    Yields (Failure.Tolerated E) (render storage cols rows planes paint) log fun image _ =>
      image.Displays cols rows planes pixel := by
  refine Yields.bind (Yields.check ((allocate_yields storage.bytes_pos
    (room.imp_right (·.toCounted))).mono ?_))
  intro _ addressable
  have whole := Handle.whole_yields (E := E) addressable
    (room.imp_right fun renderable => ⟨⟨renderable.pixels_lt, renderable.line_lt⟩, Nat.le_refl _⟩)
  refine Yields.bind (Yields.check (whole.mono ?_))
  rintro handle ⟨sound, isWhole⟩
  refine Yields.bind (Yields.onto ((hpaint addressable handle sound isWhole log).mono ?_))
  intro _ s painted
  refine Yields.pure (ofVector_displays addressable ?_)
  intro x y p hx hy hp
  have inside : handle.Inside x y p :=
    ⟨isWhole.cols_eq.symm ▸ hx, isWhole.rows_eq.symm ▸ hy, isWhole.planes_eq.symm ▸ hp⟩
  rw [← isWhole.address_eq inside]
  exact painted.inside inside inside

end Image

end ImageViews
