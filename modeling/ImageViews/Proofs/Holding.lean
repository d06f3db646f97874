import ImageViews.Proofs.Passes
import ImageViews.View.Evaluate

/-!
# Pixels that a view holds

Stored pixels end with their extent, and a crop has the pixels of what it is cut from, wherever its
own extent may end. Extensions and filters with a border have pixels at all coordinates. In a
well-formed view every part has the pixels of its own extent, which is what a border asks for.
-/
namespace ImageViews

theorem Access.inside_le (access : Access) (len : Nat) : access.inside len ≤ len := by
  cases access with
  | point => exact Int.le_refl _
  | box => exact Coordinate.ofExtent_le len

namespace Border.Reads

variable {border : Border} {access : Access} {cols rows : Nat} {x y u v : Int}

/-- The pixels that a border reads belong to the extent, if signed words can measure that. -/
theorem has (h : border.Reads access cols rows x y u v)
    (hcols : (cols : Int) ≤ Coordinate.greatest) (hrows : (rows : Int) ≤ Coordinate.greatest) :
    (Box.ofExtent cols rows).Has u v := by
  have := access.inside_le cols
  have := access.inside_le rows
  cases h with
  | inside inside =>
    unfold Inside at inside
    simp only [Box.Has, Box.ofExtent]
    omega
  | mapped _ blank hcolumn hrow =>
    unfold Blank at blank
    have column := (maps_of_index hcolumn (by omega) hcols).1
    have row := (maps_of_index hrow (by omega) hrows).1
    rw [Coordinate.ofExtent_of_le (by omega), Coordinate.ofExtent_of_le (by omega)]
    simp only [Box.Has, Box.ofExtent]
    omega

theorem holds {H : Int → Int → Prop} (h : border.Reads access cols rows x y u v)
    (fills : 0 < cols → 0 < rows → Fills cols rows H) : H u v := by
  have extent : 0 < cols ∧ 0 < rows := by
    cases h with
    | inside inside =>
      have := access.inside_le cols
      have := access.inside_le rows
      unfold Inside at inside
      omega
    | mapped _ blank _ _ =>
      unfold Blank at blank
      omega
  rcases (fills extent.1 extent.2).all with all | ⟨small, all⟩
  · exact all u v
  · exact all u v (h.has small.1 small.2)

end Border.Reads

namespace View

variable {A : Arithmetic} {p : A.Pixel}

/-- Whether the view has a pixel at `(x, y)`. -/
def Holds : {p : A.Pixel} → View A p → Int → Int → Prop
  | _, image pixels _, x, y => pixels.Holds x y
  | _, strided grid, x, y => grid.Holds x y
  | _, crop child x0 y0 _ _, x, y => child.Holds (x + x0) (y + y0)
  | _, convolve child _ kernel anchor none, x, y =>
    ∀ i j : Nat, i < kernel.cols → j < kernel.rows →
      child.Holds (x - anchor.shift.1 + i) (y - anchor.shift.2 + j)
  | _, extend .., _, _ | _, convolve _ _ _ _ (some _), _, _ | _, separable .., _, _ => True

/-- The view has every pixel that is read for the box. A view without planes has no pixels to ask
for. -/
def Covers : {p : A.Pixel} → View A p → Box → Prop
  | _, image pixels _, box => 0 < pixels.planes → ∀ x y, box.Has x y → pixels.Holds x y
  | _, strided grid, box => 0 < grid.planes → ∀ x y, box.Has x y → grid.Holds x y
  | _, crop child x0 y0 _ _, box => child.Covers { box with x := box.x + x0, y := box.y + y0 }
  | _, convolve child _ _ anchor none, box => child.Covers (box.windows anchor)
  | _, extend .., _ | _, convolve _ _ _ _ (some _), _ | _, separable .., _ => True

/-- The view has the pixels that a border around it may ask for. -/
def Serves (v : View A p) : Prop :=
  0 < v.planes → 0 < v.cols → 0 < v.rows → Fills v.cols v.rows v.Holds

/-- The buffers of the view can be addressed, and every part of it has the pixels of its extent.
Only prerasterized views have filters without a border; what they hold is known when they are
made. -/
def WellFormed : {p : A.Pixel} → View A p → Prop
  | _, image pixels _ => pixels.Addressable
  | _, strided grid => grid.Sound
  | _, crop child x0 y0 cols rows =>
    child.WellFormed ∧ (cols < Extent.modulus ∧ rows < Extent.modulus) ∧
      ∀ x y, (Box.ofExtent cols rows).Has x y → child.Holds (x + x0) (y + y0)
  | _, extend child _ => child.WellFormed
  | _, convolve _ _ _ _ none => False
  | _, convolve child _ kernel _ (some _) => child.WellFormed ∧ kernel.Addressable
  | _, separable child _ row col _ _ =>
    child.WellFormed ∧ (row.length : Int) ≤ Coordinate.greatest ∧
      (col.length : Int) ≤ Coordinate.greatest

/-- The buffers of the view can be addressed, and what is read through a border is well-formed. -/
def Sound : {p : A.Pixel} → View A p → Prop
  | _, crop child .. => child.Sound
  | _, convolve child _ kernel _ none => child.Sound ∧ kernel.Addressable
  | _, v => v.WellFormed

/-- Whether the view has pixels at all coordinates by the way it is built. -/
def Everywhere : {p : A.Pixel} → View A p → Prop
  | _, image .. | _, strided _ | _, convolve _ _ _ _ none => False
  | _, crop child .. => child.Everywhere
  | _, extend .. | _, convolve _ _ _ _ (some _) | _, separable .. => True

theorem Everywhere.holds {v : View A p} (h : v.Everywhere) (x y : Int) : v.Holds x y := by
  induction v generalizing x y with
  | image | strided => exact h.elim
  | crop child x0 y0 cols rows ih => exact ih h _ _
  | extend | separable => trivial
  | convolve child _ _ _ border =>
    cases border with
    | none => exact h.elim
    | some border => trivial

namespace WellFormed

variable {v : View A p}

theorem holds (h : v.WellFormed) {x y : Int} (has : v.bounds.Has x y) : v.Holds x y := by
  cases v with
  | image pixels =>
    simp only [Box.Has, bounds, Tiler.bounds, Box.ofExtent] at has
    simp only [Holds, Image.Holds]
    exact ⟨⟨has.1.1, by simpa [tiler, Tiler.image] using has.1.2⟩, has.2.1,
      by simpa [tiler, Tiler.image] using has.2.2⟩
  | strided grid =>
    simp only [Box.Has, bounds, Tiler.bounds, Box.ofExtent] at has
    simp only [Holds, Strided.Holds]
    exact ⟨⟨has.1.1, by simpa [tiler, Tiler.strided] using has.1.2⟩, has.2.1,
      by simpa [tiler, Tiler.strided] using has.2.2⟩
  | crop => exact h.2.2 x y has
  | extend | separable => trivial
  | convolve child _ _ _ border =>
    cases border with
    | none => exact h.elim
    | some border => trivial

/-- A crop is well-formed that lies inside its child, or is cut from a view with pixels at all
coordinates. -/
theorem crop_of_inside (h : v.WellFormed) {x0 y0 : Int} {cols rows : Nat}
    (word : cols < Extent.modulus ∧ rows < Extent.modulus)
    (inside : v.Everywhere ∨ ({ x := x0, y := y0, width := cols, height := rows } : Box).Within
      v.bounds) : (v.crop x0 y0 cols rows).WellFormed := by
  refine ⟨h, word, fun x y has => ?_⟩
  rcases inside with everywhere | within
  · exact everywhere.holds _ _
  · refine h.holds (within.has ?_)
    unfold Box.Has at has ⊢
    simp only [Box.ofExtent] at has
    simp only
    omega

end WellFormed

/-- All pixels of `H` lie in an area that signed words can measure. -/
def Bounded (H : Int → Int → Prop) : Prop :=
  ∃ a b : Int, ∀ x y, H x y → (a ≤ x ∧ x < a + Coordinate.greatest) ∧
    b ≤ y ∧ y < b + Coordinate.greatest

theorem Bounded.shift {H : Int → Int → Prop} (h : Bounded H) (dx dy : Int) :
    Bounded fun x y => H (x + dx) (y + dy) := by
  obtain ⟨a, b, h⟩ := h
  refine ⟨a - dx, b - dy, fun x y holds => ?_⟩
  have := h _ _ holds
  omega

/-- The pixels of a buffer lie in a bounded area. -/
theorem bounded_of_size {cols rows : Nat} (planes : Nat) (hplanes : 0 < planes)
    (h : ((cols * rows * planes : Nat) : Int) ≤ Coordinate.greatest) :
    Bounded fun x y : Int => (0 ≤ x ∧ x < cols) ∧ 0 ≤ y ∧ y < rows := by
  refine ⟨0, 0, fun x y inside => ?_⟩
  have := Image.extents_fit (by omega : 0 < cols) (by omega : 0 < rows) hplanes h
  omega

/-- A view has all pixels, or they lie in a bounded area. -/
theorem holds_all_or_bounded (v : View A p) (h : v.Sound) (hplanes : 0 < v.planes) :
    (∀ x y, v.Holds x y) ∨ Bounded v.Holds := by
  induction v with
  | image pixels =>
    refine .inr (bounded_of_size pixels.planes hplanes ?_)
    rw [← pixels.size_cells]
    exact h
  | strided grid =>
    exact .inr (bounded_of_size grid.planes hplanes
      (Int.le_trans (Int.ofNat_le.2 h.count_le) h.size_le))
  | crop child x0 y0 cols rows ih =>
    exact (ih h hplanes).imp (fun all x y => all _ _) (·.shift x0 y0)
  | extend | separable => exact .inl fun _ _ => trivial
  | convolve child _ kernel anchor border ih =>
    cases border with
    | some border => exact .inl fun _ _ => trivial
    | none =>
      apply (ih h.1 hplanes).imp (fun all x y i j _ _ => all _ _)
      intro bounded
      obtain ⟨a, b, bounded⟩ := bounded.shift (-anchor.shift.1) (-anchor.shift.2)
      refine ⟨a, b, fun x y holds => bounded x y ?_⟩
      have corner := holds 0 0 kernel.cols_pos kernel.rows_pos
      rwa [Int.ofNat_zero, Int.add_zero, Int.add_zero, Int.sub_eq_add_neg,
        Int.sub_eq_add_neg] at corner

/-- An extent of stored pixels is given in words. -/
theorem word_of_size {cols rows planes : Nat} (hcols : 0 < cols) (hrows : 0 < rows)
    (hplanes : 0 < planes) (h : ((cols * rows * planes : Nat) : Int) ≤ Coordinate.greatest) :
    cols < Extent.modulus ∧ rows < Extent.modulus := by
  have := Image.extents_fit hcols hrows hplanes h
  unfold Coordinate.greatest at this
  unfold Extent.modulus
  omega

namespace WellFormed

theorem word {v : View A p} (h : v.WellFormed) (hplanes : 0 < v.planes)
    (hcols : 0 < v.cols) (hrows : 0 < v.rows) :
    v.cols < Extent.modulus ∧ v.rows < Extent.modulus := by
  induction v with
  | image pixels =>
    have size : (pixels.cells.size : Int) ≤ Coordinate.greatest := h
    rw [pixels.size_cells] at size
    exact word_of_size hcols hrows hplanes size
  | strided grid =>
    have size : ((grid.cols * grid.rows * grid.planes : Nat) : Int) ≤ Coordinate.greatest :=
      Int.le_trans (Int.ofNat_le.2 h.count_le) h.size_le
    exact word_of_size hcols hrows hplanes size
  | crop child x0 y0 cols rows ih => exact h.2.1
  | extend child border ih => exact ih h hplanes hcols hrows
  | separable child _ _ _ _ _ ih => exact ih h.1 hplanes hcols hrows
  | convolve child _ kernel anchor border ih =>
    cases border with
    | some border => exact ih h.1 hplanes hcols hrows
    | none => exact h.elim

theorem sound {v : View A p} (h : v.WellFormed) : v.Sound := by
  induction v with
  | crop child _ _ _ _ ih => exact ih h.1
  | image | strided | extend | separable => exact h
  | convolve child _ _ _ border ih =>
    cases border with
    | some border => exact h
    | none => exact h.elim

theorem serves {v : View A p} (h : v.WellFormed) : v.Serves := by
  intro hplanes hcols hrows
  refine ⟨h.word hplanes hcols hrows, ?_⟩
  refine (v.holds_all_or_bounded h.sound hplanes).imp id fun ⟨a, b, bounded⟩ => ?_
  have inside {x y : Int} (hx : 0 ≤ x ∧ x < v.cols) (hy : 0 ≤ y ∧ y < v.rows) : v.Holds x y := by
    apply h.holds
    simp only [Box.Has, bounds, Tiler.bounds, Box.ofExtent, Int.zero_add]
    exact ⟨hx, hy⟩
  have first := bounded 0 0 (inside (by omega) (by omega))
  have last := bounded (v.cols - 1) (v.rows - 1) (inside (by omega) (by omega))
  exact ⟨by omega, fun x y has => h.holds has⟩

/-- A well-formed view has what is read for a box as soon as it has the pixels of the box. -/
theorem covers {v : View A p} (h : v.WellFormed) {box : Box}
    (holds : 0 < v.planes → ∀ x y, box.Has x y → v.Holds x y) : v.Covers box := by
  induction v generalizing box with
  | image | strided => exact holds
  | crop child x0 y0 _ _ ih =>
    apply ih h.1
    intro hplanes x y has
    have moved : box.Has (x - x0) (y - y0) := by
      unfold Box.Has at has ⊢
      simp only at has
      omega
    simpa [Holds] using holds hplanes _ _ moved
  | extend | separable => trivial
  | convolve child _ _ _ border =>
    cases border with
    | some border => trivial
    | none => exact h.elim

/-- What is read is there for a box inside the bounds, and for any box of a view with pixels at all
coordinates. -/
theorem covers_of_inside {v : View A p} (h : v.WellFormed) {box : Box}
    (inside : v.Everywhere ∨ box.Within v.bounds) : v.Covers box :=
  h.covers fun _ x y has =>
    inside.elim (·.holds x y) fun within => h.holds (within.has has)

end WellFormed

namespace Covers

variable {v : View A p} {box box' : Box}

theorem holds (h : v.Covers box) (hplanes : 0 < v.planes) {x y : Int} (has : box.Has x y) :
    v.Holds x y := by
  induction v generalizing box x y with
  | image | strided => exact h hplanes x y has
  | crop child x0 y0 _ _ ih =>
    apply ih h hplanes
    unfold Box.Has at has ⊢
    simp only
    omega
  | extend | separable => trivial
  | convolve child _ kernel anchor border ih =>
    cases border with
    | some border => trivial
    | none => exact fun i j hi hj => ih h hplanes (Box.windows_has has hi hj)

theorem within (h : v.Covers box') (within : box.Within box') : v.Covers box := by
  induction v generalizing box box' with
  | image | strided => exact fun hplanes x y has => h hplanes x y (within.has has)
  | crop child x0 y0 _ _ ih =>
    apply ih h
    unfold Box.Within at within ⊢
    simp only
    omega
  | extend | separable => trivial
  | convolve child _ kernel anchor border ih =>
    cases border with
    | some border => trivial
    | none => exact ih h (within.windows kernel.cols_pos kernel.rows_pos)

end Covers

end View

end ImageViews
