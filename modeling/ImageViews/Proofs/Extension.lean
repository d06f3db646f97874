import ImageViews.Proofs.Borders
import ImageViews.Proofs.Tiles
import ImageViews.Tiler.Border

/-!
# Boxes with a border

However a box is rendered, it displays the pixels that the border gives one by one: a box inside
the extent is copied, one with a blank outside is a part painted into blanks, and any other is
picked from the box that holds all the indices. The tiler is only asked for pixels that it holds.
-/
namespace ImageViews

variable {α : Type} {E : Fault → Prop}

/-- The pixels `H` fill an extent as far as a border needs it. An extent that no signed word can
measure has all pixels. -/
structure Fills (cols rows : Nat) (H : Int → Int → Prop) : Prop where
  word : cols < Extent.modulus ∧ rows < Extent.modulus
  all : (∀ x y, H x y) ∨ ((cols : Int) ≤ Coordinate.greatest ∧ (rows : Int) ≤ Coordinate.greatest) ∧
    ∀ x y, (Box.ofExtent cols rows).Has x y → H x y

/-- The pixel `(x, y)` lies between the corners of the extent. -/
theorem Border.inside_box {cols rows : Nat} {x y : Int} :
    Inside .box cols rows x y ↔
      (0 ≤ x ∧ x < Coordinate.ofExtent cols) ∧ 0 ≤ y ∧ y < Coordinate.ofExtent rows := by
  unfold Inside
  simp only [Access.inside_box]
  omega

theorem Border.has_of_inside {cols rows : Nat} {x y : Int} (h : Inside .box cols rows x y) :
    (Box.ofExtent cols rows).Has x y := by
  have := inside_box.1 h
  have := Coordinate.ofExtent_le cols
  have := Coordinate.ofExtent_le rows
  simp only [Box.Has, Box.ofExtent]
  omega

/-- The pixels between the corners of an extent are there, and there are none if it is empty. -/
theorem inside_fills {cols rows : Nat} {x y : Int} {H : Int → Int → Prop}
    (fills : 0 < cols → 0 < rows → Fills cols rows H)
    (h : Border.Inside .box cols rows x y) : H x y := by
  have := Border.inside_box.1 h
  have := Coordinate.ofExtent_le cols
  have := Coordinate.ofExtent_le rows
  exact (fills (by omega) (by omega)).all.elim (· x y) (·.2 x y (Border.has_of_inside h))

theorem Box.Moderate.storable {b : Box} {bytes planes : Nat} (h : b.Moderate bytes planes) :
    Storable bytes b.width b.height planes where
  pixels_lt := by
    have := Nat.le_mul_of_pos_right (b.width * b.height)
      (Nat.lt_of_lt_of_le Nat.one_pos (Nat.le_max_left 1 planes))
    have := h.cells
    unfold quarter at this
    unfold Extent.modulus
    omega
  line_lt := by
    have : b.width * planes ≤ b.width * max 1 planes := Nat.mul_le_mul_left _ (by omega)
    have := h.line
    unfold quarter at this
    unfold Extent.modulus
    omega
  bytes_le := h.memory

namespace Tiler

variable {t : Tiler α} {border : Border} {storage : Storage α} {box : Box} {log : Log}
  {pixel : Int → Int → Nat → Check α} {H : Int → Int → Prop}

/-- The pixels of a box, with a border around the extent of the tiler. -/
def bordered (t : Tiler α) (border : Border) (blank : α) (pixel : Int → Int → Nat → Check α)
    (x y : Int) (p : Nat) : Check α :=
  border.value .box blank t.cols t.rows (pixel · · p) x y

/-- The indices stand for the coordinates from `first` on. -/
def Indexes {length : Nat} (border : Border) (first : Int) (len : Nat)
    (indices : Vector Nat length) : Prop :=
  ∀ i (_ : i < length), border.index (first + i) len = .ok indices[i]

/-- The columns and rows from the first to the last ones, which are taken as signed words. -/
def between (cols rows : Nat × Nat) : Box where
  x := Coordinate.ofExtent cols.1
  y := Coordinate.ofExtent rows.1
  width := (Coordinate.ofExtent cols.2 + 1 - Coordinate.ofExtent cols.1).toNat
  height := (Coordinate.ofExtent rows.2 + 1 - Coordinate.ofExtent rows.1).toNat

/-- The box is rendered from the smallest box with the indices of its coordinates. -/
def Gathers (t : Tiler α) (border : Border) (box : Box) : Prop :=
  ¬box.IsEmpty ∧ ¬box.Within t.bounds ∧ ¬border.Blank t.cols t.rows

/-- What is measured and mapped on the way to the image of a box fits its words, and there is room
for what is stored or a lack of it is tolerated. -/
structure Extendable (E : Fault → Prop) (t : Tiler α) (border : Border) (storage : Storage α)
    (box : Box) : Prop where
  extent : (2 * t.cols : Int) ≤ Coordinate.greatest ∧ (2 * t.rows : Int) ≤ Coordinate.greatest
  lengths : (box.width : Int) ≤ Coordinate.greatest ∧ (box.height : Int) ≤ Coordinate.greatest
  columns : Coordinate.Fits box.x ∧ Coordinate.Fits (box.x + box.width)
  lines : Coordinate.Fits box.y ∧ Coordinate.Fits (box.y + box.height)
  image : ¬box.IsEmpty → Renderable E storage.bytes box.width box.height t.planes
  indices : t.Gathers border box → E .capacity ∨
    ((8 * box.width : Nat) : Int) ≤ Coordinate.greatest ∧
      ((8 * box.height : Nat) : Int) ≤ Coordinate.greatest
  source : t.Gathers border box → ∀ (xs : Vector Nat box.width) (ys : Vector Nat box.height),
    Indexes border box.x t.cols xs → Indexes border box.y t.rows ys →
    Renderable E storage.bytes (between (span xs.toList) (span ys.toList)).width
      (between (span xs.toList) (span ys.toList)).height t.planes

/-- A part of a box is painted where the destination shows it. -/
theorem paintPart_yields {n : Nat} {handle : Handle n} {part : Box}
    {cells : Vector α n} (hs : handle.Sound) (takes : handle.Takes box t.planes)
    (hx : box.x ≤ part.x) (hy : box.y ≤ part.y)
    (room : Tolerant E ∨ (part.Within box ∧ (box.width : Int) ≤ Coordinate.greatest ∧
      (box.height : Int) ≤ Coordinate.greatest) ∧
      (0 < handle.planes ∨ handle.colStride = 0 ∧ handle.rowStride = 0))
    (paints : t.Paints E pixel part) :
    Yields (Failure.Tolerated E) (t.paintPart box part handle) (cells, log) fun _ s =>
      handle.Painted (fun x y _ => part.Has (box.x + x) (box.y + y))
        (fun x y p => pixel (box.x + x) (box.y + y) p) cells s.1 := by
  obtain ⟨cols_eq, rows_eq, planes_eq⟩ := takes
  have distance := room.imp_right fun ⟨⟨within, width, height⟩, _⟩ => by
    have : Coordinate.Fits (part.x - box.x) ∧ Coordinate.Fits (part.y - box.y) := by
      simp only [Box.Within, Coordinate.Fits, Coordinate.least, Coordinate.greatest] at *
      omega
    exact this
  unfold paintPart
  refine Yields.bind (Yields.check (Coordinate.sub_yields (distance.imp (· _) (·.1)) ?_))
  intro _
  refine Yields.bind (Yields.check (Coordinate.sub_yields (distance.imp (· _) (·.2)) ?_))
  intro _
  rw [Extent.ofCoordinate_of_nonneg (by omega), Extent.ofCoordinate_of_nonneg (by omega)]
  have window_fits : Tolerant E ∨
      ((part.x - box.x).toNat + part.width ≤ handle.cols ∧
        (part.y - box.y).toNat + part.height ≤ handle.rows) ∧
      (handle.cols < Extent.modulus ∧ handle.rows < Extent.modulus) ∧
      (0 < handle.planes ∨ handle.colStride = 0 ∧ handle.rowStride = 0) := by
    refine room.imp_right fun ⟨⟨within, width, height⟩, strides⟩ => ⟨?_, ?_, strides⟩
    · unfold Box.Within at within
      omega
    · unfold Coordinate.greatest at width height
      unfold Extent.modulus
      omega
  refine Yields.bind (Yields.check ((Handle.window_yields hs window_fits).mono ?_))
  rintro w ⟨sound, window⟩
  have takes' : w.Takes part t.planes :=
    ⟨window.cols_eq, window.rows_eq, window.planes_eq.trans planes_eq⟩
  apply (paints w sound takes' cells log).mono
  intro _ s painted
  refine ((painted.of_window hs window).congr fun x y p _ => ?_).of_pixel fun {x y p} _ has => ?_
  · unfold Box.Has
    omega
  · unfold Box.Has at has
    rw [Int.ofNat_sub (by omega), Int.ofNat_sub (by omega)]
    congr 1 <;> omega

/-- A box and the extent have the pixels inside in common. -/
theorem overlap_inside (hw : (box.width : Int) ≤ Coordinate.greatest)
    (hh : (box.height : Int) ≤ Coordinate.greatest) {x y : Int} :
    (box.overlap t.bounds).Has x y ↔ box.Has x y ∧ Border.Inside .box t.cols t.rows x y := by
  rw [bounds, Box.overlap_has hw hh, Border.inside_box]

/-- Painted over blanks, the pixels inside are all that a blank border gives. -/
theorem bordered_painted {n : Nat} {handle : Handle n} {blank : α} {cells : Vector α n}
    {inner : Box} (hblank : border.Blank t.cols t.rows) (hs : handle.Sound)
    (takes : handle.Takes box t.planes)
    (inner_has : 0 < t.planes → ∀ {x y : Int}, inner.Has x y ↔
      box.Has x y ∧ Border.Inside .box t.cols t.rows x y)
    (painted : handle.Painted (fun x y _ => inner.Has (box.x + x) (box.y + y))
      (fun x y p => pixel (box.x + x) (box.y + y) p) (Vector.replicate n blank) cells) :
    handle.Painted handle.Inside
      (fun x y p => t.bordered border blank pixel (box.x + x) (box.y + y) p)
      (Vector.replicate n blank) cells := by
  refine painted.complete hs (fun inside has => ?_) fun {x y p} inside outside => ?_
  · have hp := (takes.has inside).2
    unfold bordered
    rw [Border.value_of_inside ((inner_has (Nat.zero_lt_of_lt hp)).1 has).2]
  · obtain ⟨has, hp⟩ := takes.has inside
    have outside : ¬Border.Inside .box t.cols t.rows (box.x + x) (box.y + y) := fun inside =>
      outside ((inner_has (Nat.zero_lt_of_lt hp)).2 ⟨has, inside⟩)
    unfold bordered
    rw [Border.value_of_blank outside hblank, fetchCell_toArray (hs.reach inside).2.2]
    simp

namespace Extendable

variable (h : Extendable E t border storage box)
include h

theorem extent_le : (t.cols : Int) ≤ Coordinate.greatest ∧
    (t.rows : Int) ≤ Coordinate.greatest := by
  have := h.extent
  omega

/-- The corners are those of integer arithmetic. -/
theorem ends : (box.right = box.x + box.width ∧ box.bottom = box.y + box.height) ∧
    t.bounds.right = t.cols ∧ t.bounds.bottom = t.rows := by
  rw [Box.right, Box.bottom, Coordinate.ofExtent_of_le h.lengths.1,
    Coordinate.ofExtent_of_le h.lengths.2, bounds, Box.right_ofExtent, Box.bottom_ofExtent,
    Coordinate.ofExtent_of_le h.extent_le.1, Coordinate.ofExtent_of_le h.extent_le.2]
  exact ⟨⟨rfl, rfl⟩, rfl, rfl⟩

theorem fits_ends : (Coordinate.Fits box.right ∧ Coordinate.Fits box.bottom) ∧
    Coordinate.Fits t.bounds.right ∧ Coordinate.Fits t.bounds.bottom := by
  obtain ⟨⟨right, bottom⟩, right', bottom'⟩ := h.ends
  have := h.extent
  rw [right, bottom, right', bottom']
  refine ⟨⟨h.columns.2, h.lines.2⟩, ?_⟩
  unfold Coordinate.Fits Coordinate.least
  omega

/-- Where the box begins behind the extent or ends before it, the difference of the corners is no
further from zero than the box itself. -/
theorem fits_overlap : Coordinate.Fits (min box.right t.bounds.right - max box.x t.bounds.x) ∧
    Coordinate.Fits (min box.bottom t.bounds.bottom - max box.y t.bounds.y) := by
  obtain ⟨⟨right, bottom⟩, right', bottom'⟩ := h.ends
  have extent := h.extent
  have columns := h.columns
  have lines := h.lines
  rw [right, bottom, right', bottom']
  simp only [bounds, Box.ofExtent, Coordinate.Fits, Coordinate.least, Coordinate.greatest] at *
  omega

/-- The comparison of the corners as signed words is that of integer arithmetic. -/
theorem within_iff : ((t.bounds.x ≤ box.x ∧ box.right ≤ t.bounds.right) ∧
    t.bounds.y ≤ box.y ∧ box.bottom ≤ t.bounds.bottom) ↔ box.Within t.bounds := by
  obtain ⟨⟨right, bottom⟩, right', bottom'⟩ := h.ends
  rw [right, bottom, right', bottom']
  simp only [Box.Within, bounds, Box.ofExtent, Int.zero_add]

end Extendable

theorem padded_yields (hbox : ¬box.IsEmpty) (hblank : border.Blank t.cols t.rows)
    (room : Tolerant E ∨ Extendable E t border storage box)
    (hfills : 0 < t.planes → 0 < t.cols → 0 < t.rows → Fills t.cols t.rows H)
    (hpaints : ∀ box', (0 < t.planes → ∀ x y, box'.Has x y → H x y) →
      (Tolerant E ∨ ¬box'.IsEmpty ∧ box'.Within t.bounds) → t.Paints E pixel box') :
    Yields (Failure.Tolerated E) (t.padded storage box) log fun image _ =>
      image.Displays box.width box.height t.planes fun x y p =>
        t.bordered border storage.blank pixel (box.x + x) (box.y + y) p := by
  have ends : box.Ends E := room.imp (· _) (·.fits_ends.1)
  have ends' : t.bounds.Ends E := room.imp (· _) (·.fits_ends.2)
  unfold padded
  refine Yields.bind (Yields.check ((box.intersect_yields ends ends'
    (room.imp (· _) (·.fits_overlap))).mono ?_))
  rintro _ rfl
  split
  next heq =>
    have empty : (box.overlap t.bounds).IsEmpty := by
      split at heq
      next empty => exact empty
      next => cases heq
    refine Yields.check ((Image.blank_yields
      (room.imp_right fun h => (h.image hbox).toCounted)).mono ?_)
    intro image displays
    apply displays.congr
    intro x y p a hx hy hp ha
    obtain ⟨hw, hh, -⟩ := displays.extents_fit (by omega) (by omega) (by omega)
    have outside : ¬Border.Inside .box t.cols t.rows (box.x + x) (box.y + y) := fun inside =>
      empty.not_has ((overlap_inside hw hh).2 ⟨box.has_add hx hy, inside⟩)
    unfold bordered
    rwa [Border.value_of_blank outside hblank]
  next inner heq =>
    obtain ⟨nonempty, rfl⟩ : ¬(box.overlap t.bounds).IsEmpty ∧ box.overlap t.bounds = inner := by
      split at heq
      next => cases heq
      next nonempty => exact ⟨nonempty, Option.some.inj heq⟩
    apply Image.render_yields (room.imp_right (·.image hbox))
    intro addressable handle hs whole log
    have takes : handle.Takes box t.planes := ⟨whole.cols_eq, whole.rows_eq, whole.planes_eq⟩
    have within (h : Extendable E t border storage box) :
        (box.overlap t.bounds).Within box ∧ (box.overlap t.bounds).Within t.bounds := by
      obtain ⟨⟨right, bottom⟩, right', bottom'⟩ := h.ends
      exact Box.overlap_within nonempty right bottom (by simpa [bounds, Box.ofExtent] using right')
        (by simpa [bounds, Box.ofExtent] using bottom')
    have window_fits := room.imp_right fun h => And.intro (And.intro (within h).1 h.lengths)
      ((Nat.eq_zero_or_pos t.planes).symm.imp (whole.planes_eq.symm ▸ ·) whole.strides_eq)
    have inner_has (hp : 0 < t.planes) {x y : Int} : (box.overlap t.bounds).Has x y ↔
        box.Has x y ∧ Border.Inside .box t.cols t.rows x y := by
      obtain ⟨hx, hy⟩ := Box.overlap_nonempty nonempty
      obtain ⟨hw, hh, -⟩ := Image.extents_fit hx hy hp addressable
      exact overlap_inside hw hh
    have paints : t.Paints E pixel (box.overlap t.bounds) := by
      refine hpaints _ (fun hp x y has => ?_) (room.imp_right fun h =>
        ⟨nonempty, (within h).2⟩)
      exact inside_fills (hfills hp) ((inner_has hp).1 has).2
    exact (paintPart_yields hs takes (Int.le_max_left ..) (Int.le_max_left ..) window_fits
      paints).mono fun _ s painted => bordered_painted hblank hs takes inner_has painted

section Mapped

variable {first : Int} {length len : Nat}

theorem span_spec {indices : List Nat} {j : Nat} (hj : j ∈ indices) :
    ((span indices).1 ≤ j ∧ j ≤ (span indices).2) ∧
      (span indices).1 ∈ indices ∧ (span indices).2 ∈ indices := by
  have nonempty : indices ≠ [] := List.ne_nil_of_mem hj
  obtain ⟨least, hleast⟩ := Option.isSome_iff_exists.1 (List.isSome_min?_of_mem hj)
  obtain ⟨greatest, hgreatest⟩ := Option.isSome_iff_exists.1 (List.isSome_max?_of_mem hj)
  have low := List.min?_eq_some_iff.1 hleast
  have high := List.max?_eq_some_iff.1 hgreatest
  simp only [span, hleast, hgreatest, Option.getD_some]
  exact ⟨⟨low.2 j hj, high.2 j hj⟩, low.1, high.1⟩

theorem Indexes.of_mem {indices : Vector Nat length} (h : Indexes border first len indices)
    {j : Nat} (hj : j ∈ indices.toList) : ∃ i : Nat, i < length ∧
      border.index (first + i) len = .ok j := by
  obtain ⟨i, hi, rfl⟩ := Vector.mem_iff_getElem.1 (Vector.mem_toList_iff.1 hj)
  exact ⟨i, hi, h i hi⟩

theorem borderIndices_yields
    (room : Tolerant E ∨ (E .capacity ∨ ((8 * length : Nat) : Int) ≤ Coordinate.greatest) ∧
      ∀ i : Nat, i < length → Coordinate.Fits (first + i) ∧
        (border.index (first + i) len).Tolerable E) :
    (borderIndices border first length len).Yields E (Indexes border first len) := by
  refine Check.Yields.bind (Check.Yields.require (room.elim (.inl <| · _) fun h => ?_)
    fun bytes_le => ?_)
  · simpa [indexBytes] using h.1
  have length_le : (length : Int) ≤ Coordinate.greatest := by
    unfold indexBytes at bytes_le
    omega
  have index_yields (i : Nat) (hi : i < length) :
      (do border.index (← Coordinate.add first (Coordinate.ofExtent i)) len : Check Nat).Yields E
        fun j => border.index (first + i) len = .ok j := by
    rw [Coordinate.ofExtent_of_le (n := i) (by omega)]
    refine Check.Yields.bind (Coordinate.add_yields (room.imp (· _) (·.2 i hi |>.1)) ?_)
    intro _
    refine .of_tolerable (room.elim (fun tolerant fault _ => tolerant fault) (·.2 i hi |>.2)) ?_
    exact fun _ h => h
  apply (tabulate_yields fun i hi => (index_yields i hi).tolerable).mono
  intro indices h i hi
  have cell := h i hi
  rw [fetchCell_toArray hi] at cell
  exact (index_yields i hi).value cell.symm

theorem between_of_le {cols rows : Nat × Nat} (hcols : cols.1 ≤ cols.2) (hrows : rows.1 ≤ rows.2)
    (cols_le : (cols.2 : Int) ≤ Coordinate.greatest)
    (rows_le : (rows.2 : Int) ≤ Coordinate.greatest) : between cols rows =
      { x := cols.1, y := rows.1,
        width := cols.2 + 1 - cols.1, height := rows.2 + 1 - rows.1 } := by
  unfold between
  rw [Coordinate.ofExtent_of_le cols_le, Coordinate.ofExtent_of_le rows_le,
    Coordinate.ofExtent_of_le (n := cols.1) (by omega),
    Coordinate.ofExtent_of_le (n := rows.1) (by omega)]
  congr 1 <;> omega

theorem spanBox_yields {cols rows : Nat × Nat}
    (room : Tolerant E ∨ (cols.1 ≤ cols.2 ∧ (cols.2 : Int) < Coordinate.greatest) ∧
      rows.1 ≤ rows.2 ∧ (rows.2 : Int) < Coordinate.greatest) :
    (spanBox cols rows).Yields E (· = between cols rows) := by
  have fits : Tolerant E ∨ (Coordinate.Fits (Coordinate.ofExtent cols.2 + 1) ∧
      Coordinate.Fits (Coordinate.ofExtent cols.2 + 1 - Coordinate.ofExtent cols.1)) ∧
      Coordinate.Fits (Coordinate.ofExtent rows.2 + 1) ∧
      Coordinate.Fits (Coordinate.ofExtent rows.2 + 1 - Coordinate.ofExtent rows.1) := by
    refine room.imp_right fun ⟨⟨col, col_le⟩, row, row_le⟩ => ?_
    rw [Coordinate.ofExtent_of_le (n := cols.2) (by omega),
      Coordinate.ofExtent_of_le (n := rows.2) (by omega),
      Coordinate.ofExtent_of_le (n := cols.1) (by omega),
      Coordinate.ofExtent_of_le (n := rows.1) (by omega)]
    unfold Coordinate.Fits Coordinate.least
    omega
  refine Check.Yields.bind (Coordinate.add_yields (fits.imp (· _) (·.1.1)) ?_)
  intro _
  refine Check.Yields.bind (Coordinate.add_yields (fits.imp (· _) (·.2.1)) ?_)
  intro _
  exact Box.ofCorners_yields (fits.imp (· _) fun h => ⟨h.1.2, h.2.2⟩)

/-- What is known of the first and the last one of some indices. -/
theorem Indexes.span {indices : Vector Nat length} (h : Indexes border first len indices)
    (hlength : 0 < length) :
    ((∃ i, border.index i len = .ok (span indices.toList).1) ∧
      ∃ i, border.index i len = .ok (span indices.toList).2) ∧
      ∀ i (_ : i < length),
        (span indices.toList).1 ≤ indices[i] ∧ indices[i] ≤ (span indices.toList).2 := by
  have member (i : Nat) (hi : i < length) : indices[i] ∈ indices.toList := by simp
  have ends := (span_spec (member 0 hlength)).2
  obtain ⟨i, -, hi⟩ := h.of_mem ends.1
  obtain ⟨j, -, hj⟩ := h.of_mem ends.2
  exact ⟨⟨⟨_, hi⟩, _, hj⟩, fun i hi => (span_spec (member i hi)).1⟩

/-- An index belongs to an axis that signed words can measure. -/
theorem index_lt_len {i : Int} {j : Nat} (h : border.index i len = .ok j) (hlen : 0 < len)
    (hle : (len : Int) ≤ Coordinate.greatest) : j < len :=
  (Border.maps_of_index h hlen hle).1

/-- Inside the extent the indices are the coordinates themselves. -/
theorem value_of_index {cols rows column row : Nat} {x y : Int} {blank : α}
    {source : Int → Int → Check α} (hblank : ¬border.Blank cols rows)
    (hcols : cols < Extent.modulus) (hrows : rows < Extent.modulus)
    (hx : border.index x cols = .ok column) (hy : border.index y rows = .ok row) :
    border.value .box blank cols rows source x y =
      source (Coordinate.ofExtent column) (Coordinate.ofExtent row) := by
  have same {i : Int} {len j : Nat} (hlen : len < Extent.modulus) (h : border.index i len = .ok j)
      (nonneg : 0 ≤ i) (lt : i < Coordinate.ofExtent len) : Coordinate.ofExtent j = i := by
    have le : (len : Int) ≤ Coordinate.greatest := by
      unfold Extent.modulus at hlen
      unfold Coordinate.ofExtent at lt
      unfold Coordinate.greatest
      split at lt <;> omega
    rw [Coordinate.ofExtent_of_le le] at lt
    have maps := Border.maps_of_index h (by omega) le
    have := maps.2 nonneg lt
    rw [Coordinate.ofExtent_of_le (by omega), this]
  by_cases inside : Border.Inside .box cols rows x y
  · obtain ⟨⟨x_nonneg, x_lt⟩, y_nonneg, y_lt⟩ := Border.inside_box.1 inside
    rw [Border.value_of_inside inside, same hcols hx x_nonneg x_lt, same hrows hy y_nonneg y_lt]
  · rw [Border.value_of_mapped inside hblank, hx, Check.ok_bind, hy, Check.ok_bind]

theorem pick_eq {width height x y p x0 y0 : Nat} {pixels : Image α} {xs : Vector Nat width}
    {ys : Vector Nat height} (hx : x < width) (hy : y < height) (hx0 : x0 ≤ xs[x])
    (hy0 : y0 ≤ ys[y]) :
    pick pixels xs.toArray ys.toArray x0 y0 x y p =
      pixels.fetch (xs[x] - x0) (ys[y] - y0) p := by
  unfold pick Extent.sub
  rw [fetchCell_toArray hx, fetchCell_toArray hy, Check.ok_bind, if_pos hx0, Check.ok_bind,
    Check.ok_bind, if_pos hy0, Check.ok_bind]

/-- An index map is defined on an axis of which twice the length is a coordinate. -/
theorem index_tolerable {i : Int} (hlen : 0 < len) (hle : (2 * len : Int) ≤ Coordinate.greatest) :
    (border.index i len).Tolerable E := by
  refine (Border.index_yields border hlen (by omega) (.inr ⟨?_, hle⟩)).tolerable
  unfold Coordinate.least
  omega

/-- The indices that a box needs of an axis. -/
theorem axis_room (border : Border)
    (room : Tolerant E ∨ ((Coordinate.Fits first ∧ Coordinate.Fits (first + length)) ∧
      (E .capacity ∨ ((8 * length : Nat) : Int) ≤ Coordinate.greatest)) ∧
        (2 * len : Int) ≤ Coordinate.greatest) (hlen : 0 < len) :
    Tolerant E ∨ (E .capacity ∨ ((8 * length : Nat) : Int) ≤ Coordinate.greatest) ∧
      ∀ i : Nat, i < length → Coordinate.Fits (first + i) ∧
        (border.index (first + i) len).Tolerable E := by
  refine room.imp_right fun ⟨⟨fits, bytes⟩, hle⟩ => ⟨bytes, fun i hi => ⟨?_, ?_⟩⟩
  · unfold Coordinate.Fits at *
    omega
  · exact index_tolerable hlen hle

/-- Indices of an extent that signed words can measure span a box inside it. -/
theorem between_within {cols rows : Nat} {c r : Nat × Nat} (hc : c.1 ≤ c.2 ∧ c.2 < cols)
    (hr : r.1 ≤ r.2 ∧ r.2 < rows) (hcols : (cols : Int) ≤ Coordinate.greatest)
    (hrows : (rows : Int) ≤ Coordinate.greatest) : (between c r).Within (.ofExtent cols rows) := by
  rw [between_of_le hc.1 hr.1 (by omega) (by omega)]
  simp only [Box.Within, Box.ofExtent]
  omega

theorem between_nonempty {c r : Nat × Nat} (hc : c.1 ≤ c.2) (hr : r.1 ≤ r.2)
    (c_le : (c.2 : Int) ≤ Coordinate.greatest) (r_le : (r.2 : Int) ≤ Coordinate.greatest) :
    ¬(between c r).IsEmpty := by
  rw [between_of_le hc hr c_le r_le]
  simp only [Box.IsEmpty]
  omega

/-- The smallest box with the indices of the coordinates has pixels and lies inside the extent. -/
theorem Gathers.hull (gathers : t.Gathers border box) (hcols : (t.cols : Int) ≤ Coordinate.greatest)
    (hrows : (t.rows : Int) ≤ Coordinate.greatest) {xs : Vector Nat box.width}
    {ys : Vector Nat box.height} (hxs : Indexes border box.x t.cols xs)
    (hys : Indexes border box.y t.rows ys) :
    ¬(between (span xs.toList) (span ys.toList)).IsEmpty ∧
      (between (span xs.toList) (span ys.toList)).Within t.bounds := by
  obtain ⟨nonempty, -, shown⟩ := gathers
  unfold Box.IsEmpty at nonempty
  unfold Border.Blank at shown
  obtain ⟨⟨-, _, last_col⟩, cols⟩ := hxs.span (by omega)
  obtain ⟨⟨-, _, last_row⟩, rows⟩ := hys.span (by omega)
  have c_lt := index_lt_len last_col (by omega) hcols
  have r_lt := index_lt_len last_row (by omega) hrows
  have c_le := Nat.le_trans (cols 0 (by omega)).1 (cols 0 (by omega)).2
  have r_le := Nat.le_trans (rows 0 (by omega)).1 (rows 0 (by omega)).2
  exact ⟨between_nonempty c_le r_le (by omega) (by omega),
    between_within ⟨c_le, c_lt⟩ ⟨r_le, r_lt⟩ hcols hrows⟩

/-- A moderate box can be extended over moderate bounds. -/
theorem Extendable.of_moderate (moderate : box.Moderate storage.bytes t.planes)
    (bounds_moderate : t.bounds.Moderate storage.bytes t.planes) :
    Extendable E t border storage box := by
  have bounds := moderate.bounds
  have width_le := moderate.width_le
  have height_le := moderate.height_le
  have cols_le : t.cols ≤ quarter := bounds_moderate.width_le
  have rows_le : t.rows ≤ quarter := bounds_moderate.height_le
  unfold quarter at bounds width_le height_le cols_le rows_le
  refine ⟨?_, ?_, ?_, ?_, fun _ => moderate.storable.renderable storage.bytes_pos,
    fun _ => .inr moderate.indices, ?_⟩
  · unfold Coordinate.greatest
    omega
  · unfold Coordinate.greatest
    omega
  · unfold Coordinate.Fits Coordinate.least Coordinate.greatest
    omega
  · unfold Coordinate.Fits Coordinate.least Coordinate.greatest
    omega
  · intro gathers xs ys hxs hys
    have within := (gathers.hull (le_greatest cols_le) (le_greatest rows_le) hxs hys).2
    exact (bounds_moderate.within within).storable.renderable storage.bytes_pos

/-- What is picked from the box between the indices is what the border gives. Only when signed words
do not keep the order of the indices is that box empty, and then nothing can be picked. -/
theorem pick_cases {xs : Vector Nat box.width} {ys : Vector Nat box.height} {c r : Nat × Nat}
    {pixels : Image α} (blank : α) (hblank : ¬border.Blank t.cols t.rows)
    (hxs : Indexes border box.x t.cols xs) (hys : Indexes border box.y t.rows ys)
    (cols : ∀ i (_ : i < box.width), c.1 ≤ xs[i] ∧ xs[i] ≤ c.2)
    (rows : ∀ i (_ : i < box.height), r.1 ≤ ys[i] ∧ ys[i] ≤ r.2)
    (word : t.cols < Extent.modulus ∧ t.rows < Extent.modulus)
    (c_lt : c.2 < Extent.modulus) (r_lt : r.2 < Extent.modulus)
    (displays : pixels.Displays (between c r).width (between c r).height t.planes fun x y p =>
      pixel ((between c r).x + x) ((between c r).y + y) p)
    {x y p : Nat} (hx : x < box.width) (hy : y < box.height) (hp : p < t.planes) :
    (pick pixels xs.toArray ys.toArray c.1 r.1 x y p =
        t.bordered border blank pixel (box.x + x) (box.y + y) p ∧
      ∃ a, pick pixels xs.toArray ys.toArray c.1 r.1 x y p = .ok a) ∨
      (between c r).IsEmpty ∧ ∀ a, pick pixels xs.toArray ys.toArray c.1 r.1 x y p ≠ .ok a := by
  rw [pick_eq hx hy (cols x hx).1 (rows y hy).1]
  by_cases empty : (between c r).IsEmpty
  · refine .inr ⟨empty, Image.fetch_empty ?_⟩
    rw [pixels.size_cells, displays.cols_eq, displays.rows_eq]
    rcases empty with none | none <;> simp [none]
  · refine .inl ?_
    unfold Box.IsEmpty at empty
    simp only [between] at empty displays
    obtain ⟨col, col_le⟩ := Coordinate.ofExtent_between (cols x hx).1 (cols x hx).2 c_lt (by omega)
    obtain ⟨row, row_le⟩ := Coordinate.ofExtent_between (rows y hy).1 (rows y hy).2 r_lt (by omega)
    rw [displays.fetch_eq (by omega) (by omega) hp]
    refine ⟨?_, displays.value_ok (by omega) (by omega) hp⟩
    unfold bordered
    rw [value_of_index hblank word.1 word.2 (hxs x hx) (hys y hy), col, row]

/-- The image of the picked pixels displays what the border gives. -/
theorem picked_yields {xs : Vector Nat box.width} {ys : Vector Nat box.height} {c r : Nat × Nat}
    {pixels : Image α} (hblank : ¬border.Blank t.cols t.rows)
    (hxs : Indexes border box.x t.cols xs) (hys : Indexes border box.y t.rows ys)
    (cols : ∀ i (_ : i < box.width), c.1 ≤ xs[i] ∧ xs[i] ≤ c.2)
    (rows : ∀ i (_ : i < box.height), r.1 ≤ ys[i] ∧ ys[i] ≤ r.2)
    (word : 0 < t.planes → (t.cols < Extent.modulus ∧ t.rows < Extent.modulus) ∧
      c.2 < Extent.modulus ∧ r.2 < Extent.modulus)
    (displays : pixels.Displays (between c r).width (between c r).height t.planes fun x y p =>
      pixel ((between c r).x + x) ((between c r).y + y) p)
    (counted : Tolerant E ∨ Counted E storage.bytes box.width box.height t.planes)
    (nonempty : Tolerant E ∨ ¬(between c r).IsEmpty) :
    (Image.generate storage.bytes box.width box.height t.planes
      (pick pixels xs.toArray ys.toArray c.1 r.1)).Yields E fun image =>
      image.Displays box.width box.height t.planes fun x y p =>
        t.bordered border storage.blank pixel (box.x + x) (box.y + y) p := by
  have picked {x y p : Nat} (hx : x < box.width) (hy : y < box.height) (hp : p < t.planes) :=
    have words := word (Nat.zero_lt_of_lt hp)
    pick_cases storage.blank hblank hxs hys cols rows words.1 words.2.1 words.2.2 displays
      hx hy hp
  refine (Image.generate_yields storage.bytes_pos counted fun x y p hx hy hp => ?_).mono
    fun image shown => ?_
  · rcases picked hx hy hp with ⟨-, a, ha⟩ | ⟨empty, -⟩
    · exact fun fault h => nomatch ha.symm.trans h
    · rcases nonempty with tolerant | nonempty
      · exact fun fault _ => tolerant fault
      · exact absurd empty nonempty
  · apply shown.congr
    intro x y p a hx hy hp ha
    rcases picked hx hy hp with ⟨same, -⟩ | ⟨-, never⟩
    · exact same ▸ ha
    · exact absurd ha (never a)

theorem mapped_yields (hbox : ¬box.IsEmpty) (hblank : ¬border.Blank t.cols t.rows)
    (room : Tolerant E ∨ Extendable E t border storage box ∧ ¬box.Within t.bounds)
    (hfills : 0 < t.planes → 0 < t.cols → 0 < t.rows → Fills t.cols t.rows H)
    (hpaints : ∀ box', (0 < t.planes → ∀ x y, box'.Has x y → H x y) →
      (Tolerant E ∨ ¬box'.IsEmpty ∧ box'.Within t.bounds) → t.Paints E pixel box') :
    Yields (Failure.Tolerated E) (t.mapped border storage box) log fun image _ =>
      image.Displays box.width box.height t.planes fun x y p =>
        t.bordered border storage.blank pixel (box.x + x) (box.y + y) p := by
  have hcols : 0 < t.cols := Nat.pos_of_ne_zero fun none => hblank (.inr (.inl none))
  have hrows : 0 < t.rows := Nat.pos_of_ne_zero fun none => hblank (.inr (.inr none))
  have room : Tolerant E ∨ Extendable E t border storage box ∧ t.Gathers border box :=
    room.imp_right fun ⟨h, outside⟩ => ⟨h, hbox, outside, hblank⟩
  have xs_room := axis_room border (room.imp_right fun ⟨h, gathers⟩ =>
    ⟨⟨h.columns, (h.indices gathers).imp_right (·.1)⟩, h.extent.1⟩) hcols
  have ys_room := axis_room border (room.imp_right fun ⟨h, gathers⟩ =>
    ⟨⟨h.lines, (h.indices gathers).imp_right (·.2)⟩, h.extent.2⟩) hrows
  have counted := room.imp_right fun ⟨h, _⟩ => (h.image hbox).toCounted
  unfold Box.IsEmpty at hbox
  unfold mapped
  refine Yields.bind (Yields.check ((borderIndices_yields xs_room).mono ?_))
  intro xs hxs
  refine Yields.bind (Yields.check ((borderIndices_yields ys_room).mono ?_))
  intro ys hys
  have storable := room.imp_right fun ⟨h, gathers⟩ => h.source gathers xs ys hxs hys
  have extent := room.imp_right fun ⟨h, _⟩ => h.extent_le
  have hull := room.imp_right fun ⟨h, gathers⟩ =>
    gathers.hull h.extent_le.1 h.extent_le.2 hxs hys
  obtain ⟨⟨⟨_, first_col⟩, _, last_col⟩, cols⟩ := hxs.span (by omega)
  obtain ⟨⟨⟨_, first_row⟩, _, last_row⟩, rows⟩ := hys.span (by omega)
  generalize span xs.toList = c at *
  generalize span ys.toList = r at *
  have c_le : c.1 ≤ c.2 := Nat.le_trans (cols 0 (by omega)).1 (cols 0 (by omega)).2
  have r_le : r.1 ≤ r.2 := Nat.le_trans (rows 0 (by omega)).1 (rows 0 (by omega)).2
  have c_lt := index_lt_len last_col hcols
  have r_lt := index_lt_len last_row hrows
  refine Yields.bind (Yields.check ((spanBox_yields ?_).mono ?_))
  · apply extent.imp_right
    rintro ⟨cols_le, rows_le⟩
    have := c_lt cols_le
    have := r_lt rows_le
    omega
  rintro _ rfl
  have within (hw : (t.cols : Int) ≤ Coordinate.greatest)
      (hh : (t.rows : Int) ≤ Coordinate.greatest) : (between c r).Within t.bounds :=
    between_within ⟨c_le, c_lt hw⟩ ⟨r_le, r_lt hh⟩ hw hh
  refine Yields.bind ((region_yields storable fun _ =>
    hpaints (between c r) ?_ hull).mono ?_)
  · intro hp x y has
    rcases (hfills hp hcols hrows).all with all | ⟨⟨hw, hh⟩, all⟩
    · exact all x y
    · exact all x y ((within hw hh).has has)
  intro pixels log displays
  exact Yields.check (picked_yields hblank hxs hys cols rows
    (fun hp =>
      have word := (hfills hp hcols hrows).word
      ⟨word, Border.index_lt last_col word.1, Border.index_lt last_row word.2⟩)
    displays counted (hull.imp_right (·.1)))

end Mapped

/-- A box that lies in the extent is rendered as it is. -/
theorem contained_yields (nonempty : ¬box.IsEmpty)
    (contained : (t.bounds.x ≤ box.x ∧ box.right ≤ t.bounds.right) ∧
      t.bounds.y ≤ box.y ∧ box.bottom ≤ t.bounds.bottom)
    (room : Tolerant E ∨ Extendable E t border storage box)
    (hfills : 0 < t.planes → 0 < t.cols → 0 < t.rows → Fills t.cols t.rows H)
    (hpaints : ∀ box', (0 < t.planes → ∀ x y, box'.Has x y → H x y) →
      (Tolerant E ∨ ¬box'.IsEmpty ∧ box'.Within t.bounds) → t.Paints E pixel box') :
    Yields (Failure.Tolerated E) (t.region storage box) log fun image _ =>
      image.Displays box.width box.height t.planes fun x y p =>
        t.bordered border storage.blank pixel (box.x + x) (box.y + y) p := by
  obtain ⟨⟨left, right⟩, top, bottom⟩ := id contained
  have inside (hp : 0 < t.planes)
      (addressable : ((box.width * box.height * t.planes : Nat) : Int) ≤ Coordinate.greatest)
      {x y : Int} (has : box.Has x y) : Border.Inside .box t.cols t.rows x y := by
    unfold Box.IsEmpty at nonempty
    obtain ⟨hw, hh, -⟩ := Image.extents_fit (by omega) (by omega) hp addressable
    rw [Border.inside_box, ← Box.right_ofExtent t.cols t.rows,
      ← Box.bottom_ofExtent t.cols t.rows]
    rw [Box.right, Coordinate.ofExtent_of_le hw] at right
    rw [Box.bottom, Coordinate.ofExtent_of_le hh] at bottom
    simp only [bounds, Box.ofExtent] at left top right bottom ⊢
    unfold Box.Has at has
    omega
  have within := room.imp_right fun h => And.intro nonempty (h.within_iff.1 contained)
  have covered (addressable : ((box.width * box.height * t.planes : Nat) : Int) ≤
      Coordinate.greatest) (hp : 0 < t.planes) (x y : Int) (has : box.Has x y) : H x y := by
    exact inside_fills (hfills hp) (inside hp addressable has)
  apply (region_yields (room.imp_right (·.image nonempty)) fun addressable =>
    hpaints box (covered addressable) within).mono
  intro image _ displays
  apply displays.congr
  intro x y p a hx hy hp ha
  have addressable := displays.addressable
  unfold Image.Addressable at addressable
  rw [image.size_cells, displays.cols_eq, displays.rows_eq, displays.planes_eq] at addressable
  unfold bordered
  rwa [Border.value_of_inside (inside (Nat.zero_lt_of_lt hp) addressable (box.has_add hx hy))]

/-- Rendering a box with a border displays the pixels that the border gives. -/
theorem extend_yields
    (room : Tolerant E ∨ Extendable E t border storage box)
    (hfills : 0 < t.planes → 0 < t.cols → 0 < t.rows → Fills t.cols t.rows H)
    (hpaints : ∀ box', (0 < t.planes → ∀ x y, box'.Has x y → H x y) →
      (Tolerant E ∨ ¬box'.IsEmpty ∧ box'.Within t.bounds) → t.Paints E pixel box') :
    Yields (Failure.Tolerated E) (t.extend border storage box) log fun image _ =>
      image.Displays box.width box.height t.planes fun x y p =>
        t.bordered border storage.blank pixel (box.x + x) (box.y + y) p := by
  unfold extend
  split
  next empty =>
    have area : box.width * box.height = 0 := Nat.mul_eq_zero.2 empty
    have counted : Counted E storage.bytes box.width box.height t.planes := by
      constructor <;> simp [area, Extent.modulus, Coordinate.greatest]
    refine Yields.check ((Image.blank_yields (.inr counted)).mono ?_)
    intro image displays
    apply displays.congr
    intro x y p a hx hy
    unfold Box.IsEmpty at empty
    omega
  next nonempty =>
  have ends : box.Ends E := room.imp (· _) (·.fits_ends.1)
  have ends' : t.bounds.Ends E := room.imp (· _) (·.fits_ends.2)
  refine Yields.bind (Yields.check ((Box.containsBox_yields ends' ends).mono ?_))
  intro inside h
  split
  next contained =>
    exact contained_yields nonempty (h.1 contained) room hfills hpaints
  next outside =>
    split
    next blank => exact padded_yields nonempty blank room hfills hpaints
    next mapped =>
      refine mapped_yields nonempty mapped (room.imp_right fun extendable => ⟨extendable, ?_⟩)
        hfills hpaints
      rwa [h, extendable.within_iff] at outside

/-- A rendered image can be copied from as a whole. -/
theorem displays_paints {image : Image α} {cols rows planes : Nat} (bytes : Nat)
    {shown : Nat → Nat → Nat → Check α} (displays : image.Displays cols rows planes shown)
    (room : Tolerant E ∨ (Box.ofExtent cols rows).Moderate bytes planes) :
    (Tiler.image image).Paints E image.value (.ofExtent image.cols image.rows) := by
  obtain ⟨rfl, rfl, rfl, addressable, -⟩ := displays
  refine image_paints addressable (fun _ x y has => ?_) ?_ fun grid hgrid x y p hx hy hp => ?_
  · simp only [Box.Has, Box.ofExtent] at has
    unfold Image.Holds
    omega
  · exact Image.strided_tolerable addressable (room.imp (· _) fun moderate =>
      ⟨moderate.storable.pixels_lt, moderate.storable.line_lt⟩)
  rcases room with tolerant | moderate
  · exact fun fault _ => tolerant fault
  obtain rfl := image.strided_yields.value hgrid
  have depth := moderate.depth
  refine Sampler.strided_admits ?_ ?_ (by omega)
  · rw [moderate.strides.1]
    exact moderate.left.between moderate.right (by simp [Box.ofExtent]) (by simpa using hx)
  · have stride := moderate.strides.2
    simp only [Box.ofExtent] at stride hy
    rw [stride]
    exact moderate.top.between moderate.bottom (by simp [Box.ofExtent])
      (by simpa [Box.ofExtent] using hy)

theorem extended_paints
    (room : Tolerant E ∨ box.Moderate storage.bytes t.planes ∧
      t.bounds.Moderate storage.bytes t.planes)
    (hfills : 0 < t.planes → 0 < t.cols → 0 < t.rows → Fills t.cols t.rows H)
    (hpaints : ∀ box', (0 < t.planes → ∀ x y, box'.Has x y → H x y) →
      (Tolerant E ∨ ¬box'.IsEmpty ∧ box'.Within t.bounds) → t.Paints E pixel box') :
    (t.extended border storage).Paints E (t.bordered border storage.blank pixel) box := by
  intro n handle hs takes cells log
  refine Yields.bind (Handle.accept_yields takes ?_)
  refine Yields.bind (Yields.render ((extend_yields
    (room.imp_right fun moderate => .of_moderate moderate.1 moderate.2) hfills hpaints).mono ?_))
  intro image log displays
  have takes' : handle.Takes (.ofExtent image.cols image.rows) (Tiler.image image).planes :=
    ⟨takes.1.trans displays.cols_eq.symm, takes.2.1.trans displays.rows_eq.symm,
      takes.2.2.trans displays.planes_eq.symm⟩
  have paints := displays_paints (E := E) storage.bytes displays
    (room.imp_right fun moderate => moderate.1.buffer)
  apply (paints handle hs takes' cells log).mono
  intro _ s painted
  apply painted.of_pixel
  intro x y p inside _
  obtain ⟨hx, hy, hp⟩ := inside
  simp only [Box.ofExtent, Int.zero_add]
  exact displays.value_eq (takes.1 ▸ hx) (takes.2.1 ▸ hy) (takes.2.2 ▸ hp)

end Tiler

end ImageViews
