import ImageViews.Proofs.Transposition

/-!
# Tables of values

A table gives a value to every position of an extent. An image represents a table if it has the
extent of the table and is looked up alike. What a step does to an image is told by what it does to
the table, where no index is computed.
-/
namespace ImageViews

variable {α β : Type}

/-- A value for every position of an extent. -/
structure Table (α : Type) where
  cols : Nat
  rows : Nat
  planes : Nat
  entry : Fin cols → Fin rows → Fin planes → α

namespace Table

/-- The number of values. -/
def size (t : Table α) : Nat := t.cols * t.rows * t.planes

/-- Whether a position lies inside the extent. -/
def Inside (t : Table α) (x y p : Nat) : Prop := x < t.cols ∧ y < t.rows ∧ p < t.planes

instance (t : Table α) (x y p : Nat) : Decidable (t.Inside x y p) :=
  inferInstanceAs (Decidable (_ ∧ _))

/-- The products of the extents stay within half of the greatest coordinate. -/
def Compact (t : Table α) : Prop := ImageViews.Compact t.cols t.rows t.planes

/-- The value at a position, if it lies inside the extent. -/
def get? (t : Table α) (x y p : Nat) : Option α :=
  if h : t.Inside x y p then
    some (t.entry ⟨x, h.1⟩ ⟨y, h.2.1⟩ ⟨p, h.2.2⟩)
  else
    none

/-- The values of a function. -/
def ofFn (cols rows planes : Nat) (f : Nat → Nat → Nat → α) : Table α where
  cols
  rows
  planes
  entry x y p := f x y p

/-- The values of cells in reading order. -/
def ofCells {cols rows planes : Nat} (cells : Vector α (cols * rows * planes)) : Table α where
  cols
  rows
  planes
  entry x y p :=
    have := Image.position_lt x.isLt y.isLt p.isLt
    cells[(y * cols + x) * planes + p]

/-- The table with another value at one position. -/
def set (t : Table α) (x y p : Nat) (value : α) : Table α :=
  { t with entry := fun a b c => if a = x ∧ b = y ∧ c = p then value else t.entry a b c }

/-- Columns and rows exchanged. -/
def transpose (t : Table α) : Table α where
  cols := t.rows
  rows := t.cols
  planes := t.planes
  entry x y p := t.entry y x p

/-- The table of one plane. -/
def channel (t : Table α) (plane : Fin t.planes) : Table α where
  cols := t.cols
  rows := t.rows
  planes := 1
  entry x y _ := t.entry x y plane

/-- The table with `f` applied to every value. -/
def map (f : α → β) (t : Table α) : Table β where
  cols := t.cols
  rows := t.rows
  planes := t.planes
  entry x y p := f (t.entry x y p)

variable {t : Table α} {x y p : Nat}

theorem get?_of_inside (inside : t.Inside x y p) :
    t.get? x y p = some (t.entry ⟨x, inside.1⟩ ⟨y, inside.2.1⟩ ⟨p, inside.2.2⟩) := dif_pos inside

theorem get?_eq_none (outside : ¬t.Inside x y p) : t.get? x y p = none := dif_neg outside

/-- The value that was written, and no other change. -/
theorem get?_set (inside : t.Inside x y p) (value : α) (a b c : Nat) :
    (t.set x y p value).get? a b c =
      if a = x ∧ b = y ∧ c = p then some value else t.get? a b c := by
  by_cases there : t.Inside a b c
  · have there' : (t.set x y p value).Inside a b c := there
    rw [get?_of_inside there, get?_of_inside there']
    exact apply_ite some (a = x ∧ b = y ∧ c = p) value _
  · have there' : ¬(t.set x y p value).Inside a b c := there
    have other : ¬(a = x ∧ b = y ∧ c = p) := by
      rintro ⟨rfl, rfl, rfl⟩
      exact there inside
    rw [get?_eq_none there, get?_eq_none there', if_neg other]

@[simp] theorem get?_transpose : t.transpose.get? x y p = t.get? y x p := by
  by_cases inside : t.Inside y x p
  · have inside' : t.transpose.Inside x y p := ⟨inside.2.1, inside.1, inside.2.2⟩
    rw [get?_of_inside inside, get?_of_inside inside']
    rfl
  · have outside : ¬t.transpose.Inside x y p := fun h => inside ⟨h.2.1, h.1, h.2.2⟩
    rw [get?_eq_none inside, get?_eq_none outside]

theorem get?_channel (plane : Fin t.planes) : (t.channel plane).get? x y 0 = t.get? x y plane := by
  by_cases inside : t.Inside x y plane
  · have inside' : (t.channel plane).Inside x y 0 := ⟨inside.1, inside.2.1, Nat.one_pos⟩
    rw [get?_of_inside inside, get?_of_inside inside']
    rfl
  · have outside : ¬(t.channel plane).Inside x y 0 := fun h => inside ⟨h.1, h.2.1, plane.isLt⟩
    rw [get?_eq_none inside, get?_eq_none outside]

@[simp] theorem get?_map (f : α → β) : (t.map f).get? x y p = (t.get? x y p).map f := by
  by_cases inside : t.Inside x y p
  · have inside' : (t.map f).Inside x y p := inside
    rw [get?_of_inside inside, get?_of_inside inside']
    rfl
  · have outside : ¬(t.map f).Inside x y p := inside
    rw [get?_eq_none inside, get?_eq_none outside, Option.map_none]

end Table

namespace Image

variable {image : Image α} {t : Table α} {x y p : Nat}

/-- The image has the extent of the table and is looked up alike. -/
structure Represents (image : Image α) (t : Table α) : Prop where
  cols_eq : image.cols = t.cols
  rows_eq : image.rows = t.rows
  planes_eq : image.planes = t.planes
  get?_eq : ∀ x y p, image.get? x y p = t.get? x y p

theorem get?_eq_none (outside : ¬image.Inside x y p) : image.get? x y p = none := dif_neg outside

theorem get?_of_inside (inside : image.Inside x y p) :
    image.get? x y p = image.cells[image.index x y p]? := by
  have bound := image.index_lt inside.1 inside.2.1 inside.2.2
  rw [get?, dif_pos inside, Array.getElem?_eq_getElem bound]

theorem value_eq_get? (x y p : Nat) {a : α} :
    image.value x y p = .ok a ↔ image.get? x y p = some a := by
  unfold value
  rw [if_pos ⟨Int.natCast_nonneg x, Int.natCast_nonneg y⟩, Int.toNat_natCast, Int.toNat_natCast]
  cases image.get? x y p <;> simp

theorem get?_map (f : α → β) (x y p : Nat) :
    (image.map f).get? x y p = (image.get? x y p).map f := by
  by_cases inside : image.Inside x y p
  · have inside' : (image.map f).Inside x y p := inside
    rw [get?_of_inside inside, get?_of_inside inside']
    exact Array.getElem?_map
  · have outside' : ¬(image.map f).Inside x y p := inside
    rw [get?_eq_none inside, get?_eq_none outside', Option.map_none]

/-- A write changes the pixel of its index and no other. -/
theorem get?_setCell (inside : image.Inside x y p) (value : α) (a b c : Nat) :
    (image.setCell (image.index x y p) value).get? a b c =
      if a = x ∧ b = y ∧ c = p then some value else image.get? a b c := by
  by_cases there : image.Inside a b c
  · have bound := image.index_lt there.1 there.2.1 there.2.2
    have there' : (image.setCell (image.index x y p) value).Inside a b c := there
    rw [get?_of_inside there, get?_of_inside there']
    by_cases same : a = x ∧ b = y ∧ c = p
    · obtain ⟨rfl, rfl, rfl⟩ := same
      rw [if_pos ⟨rfl, rfl, rfl⟩]
      exact Array.getElem?_setIfInBounds_self_of_lt bound
    · have apart : image.index x y p ≠ image.index a b c := by
        intro equal
        have := index_injective inside.1 inside.2.2 there.1 there.2.2 equal
        omega
      rw [if_neg same]
      exact Array.getElem?_setIfInBounds_ne apart
  · have outside' : ¬(image.setCell (image.index x y p) value).Inside a b c := there
    have other : ¬(a = x ∧ b = y ∧ c = p) := by
      rintro ⟨rfl, rfl, rfl⟩
      exact there inside
    rw [get?_eq_none there, get?_eq_none outside', if_neg other]

/-- An image that displays the entries of a table represents it. -/
theorem Displays.represents {pixel : Nat → Nat → Nat → Check α}
    (h : image.Displays t.cols t.rows t.planes pixel)
    (same : ∀ x y p a, x < t.cols → y < t.rows → p < t.planes → pixel x y p = .ok a →
      t.get? x y p = some a) : image.Represents t where
  cols_eq := h.cols_eq
  rows_eq := h.rows_eq
  planes_eq := h.planes_eq
  get?_eq x y p := by
    by_cases inside : t.Inside x y p
    · obtain ⟨hx, hy, hp⟩ := inside
      obtain ⟨a, ha⟩ := h.value_ok hx hy hp
      rw [same x y p a hx hy hp ha, ← value_eq_get?, h.value_eq hx hy hp, ha]
    · have outside : ¬image.Inside x y p := by
        unfold Inside
        rwa [h.cols_eq, h.rows_eq, h.planes_eq]
      rw [get?_eq_none outside, Table.get?_eq_none inside]

/-- The table of the cells. -/
def table (image : Image α) : Table α := .ofCells ⟨image.cells, image.size_cells⟩

theorem represents_table (image : Image α) : image.Represents image.table where
  cols_eq := rfl
  rows_eq := rfl
  planes_eq := rfl
  get?_eq _ _ _ := rfl

namespace Represents

theorem inside_iff (h : image.Represents t) : image.Inside x y p ↔ t.Inside x y p := by
  unfold Inside Table.Inside
  rw [h.cols_eq, h.rows_eq, h.planes_eq]

theorem size_eq (h : image.Represents t) : image.cells.size = t.size := by
  rw [image.size_cells, h.cols_eq, h.rows_eq, h.planes_eq, Table.size]

theorem compact_iff (h : image.Represents t) :
    Compact image.cols image.rows image.planes ↔ t.Compact := by
  rw [h.cols_eq, h.rows_eq, h.planes_eq, Table.Compact]

/-- Writing into the cell of a position writes into the table there. -/
theorem setCell (h : image.Represents t) (inside : t.Inside x y p) (value : α) :
    (image.setCell (image.index x y p) value).Represents (t.set x y p value) where
  cols_eq := h.cols_eq
  rows_eq := h.rows_eq
  planes_eq := h.planes_eq
  get?_eq a b c := by
    rw [get?_setCell (h.inside_iff.2 inside), Table.get?_set inside, h.get?_eq]

theorem plane (h : image.Represents t) {plane : Nat} (inside : plane < image.planes)
    (inside' : plane < t.planes) :
    (image.plane ⟨plane, inside⟩).Represents (t.channel ⟨plane, inside'⟩) := by
  obtain ⟨⟨cols, rows⟩, -, pixels⟩ := channel_pixels (channel_of_lt inside)
  refine ⟨cols.trans h.cols_eq, rows.trans h.rows_eq, rfl, ?_⟩
  intro x y p
  cases p with
  | zero => rw [pixels, h.get?_eq, Table.get?_channel]
  | succ p =>
    have outside : ¬(image.plane ⟨plane, inside⟩).Inside x y (p + 1) := by
      intro pixel
      exact absurd pixel.2.2 (by simp [Image.plane, ofVector])
    have outside' : ¬(t.channel ⟨plane, inside'⟩).Inside x y (p + 1) := by
      intro pixel
      exact absurd pixel.2.2 (by simp [Table.channel])
    rw [get?_eq_none outside, Table.get?_eq_none outside']

theorem map (h : image.Represents t) (f : α → β) : (image.map f).Represents (t.map f) where
  cols_eq := h.cols_eq
  rows_eq := h.rows_eq
  planes_eq := h.planes_eq
  get?_eq x y p := by rw [get?_map, h.get?_eq, Table.get?_map]

/-- The pixels as point access sees them. -/
theorem displays (h : image.Represents t) (compact : t.Compact) :
    image.Displays t.cols t.rows t.planes fun x y p => image.value x y p where
  cols_eq := h.cols_eq
  rows_eq := h.rows_eq
  planes_eq := h.planes_eq
  addressable := by
    unfold Addressable
    rw [h.size_eq]
    exact compact.addressable
  value_eq _ _ _ := rfl

/-- Only one image represents a table. -/
theorem unique {image' : Image α} (h : image.Represents t) (h' : image'.Represents t)
    (compact : t.Compact) : image = image' := by
  refine (h.displays compact).unique ((h'.displays compact).congr ?_)
  intro x y p a _ _ _ ha
  rwa [value_eq_get?, h.get?_eq, ← h'.get?_eq, ← value_eq_get?]

end Represents

end Image

end ImageViews
