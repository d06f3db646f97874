import Mathlib.Algebra.BigOperators.Fin
import ImageViews.Proofs.Folds
import ImageViews.Proofs.Integers

/-!
# Points of a convolution

A pixel of a convolution with a border is the fold of the turned kernel over the window around it,
every pixel of the window read through the border. The window is walked by the cursor of the source
only where the border has no part in it, and then the walk gives the same fold. In exact arithmetic
the fold is the convolution sum.
-/
namespace ImageViews

variable {σ α : Type} {A : Arithmetic} {p : A.Pixel} {k : A.Coeff} {q : A.Pixel}
  {h : A.product p k = some q} {kernel : Kernel (A.Factor k)}

namespace Sampler

/-- In the given plane, cursors can be placed at every pixel and next to it, and read what point
access gives. A sampler without pixels has no need of cursors. -/
structure Coherent (s : Sampler σ α) (plane : ℕ) : Prop where
  reach : 0 < s.cols → 0 < s.rows → ∀ {x y : ℤ}, 0 ≤ x → x ≤ s.cols → 0 ≤ y → y ≤ s.rows →
    s.Admits Strict x y (Coordinate.ofExtent plane)
  read : ∀ {x y : ℤ} {place}, 0 ≤ x → x < s.cols → 0 ≤ y → y < s.rows →
    s.Tracks place x y (Coordinate.ofExtent plane) → s.read place = s.get x y plane

/-- Pixels that are computed from their coordinates are the same for cursors. -/
theorem computed_read {cols rows planes plane : ℕ} {get : ℤ → ℤ → ℕ → Probe σ α} {x y : ℤ}
    {place : Position} (word : plane < Extent.modulus)
    (tracks : (computed cols rows planes get).Tracks place x y (Coordinate.ofExtent plane)) :
    (computed cols rows planes get).read place = get x y plane := by
  obtain ⟨origin, horigin, rfl⟩ := tracks
  obtain rfl : ({} : Position) = origin := Except.ok.inj horigin
  simp [computed, Addressing.moved, Extent.ofCoordinate_ofExtent word]

/-- An image whose buffer has room to spare is read by cursors as by coordinates. -/
theorem image_coherent {image : Image α} {plane : ℕ} (room : image.cells.size ≤ quarter)
    (hplane : plane < image.planes) : (Sampler.image (σ := σ) image).Coherent plane where
  reach := by
    intro hcols hrows x y hx hx' hy hy'
    obtain ⟨cols, rows, planes, line⟩ :=
      image.extents_le hcols hrows (Nat.zero_lt_of_lt hplane)
    have wide : max 1 image.planes = image.planes := by omega
    have long : max 1 (image.cols * image.planes) = image.cols * image.planes :=
      Nat.max_eq_right (Nat.mul_pos hcols (Nat.zero_lt_of_lt hplane))
    have area : image.rows * (image.cols * image.planes) = image.cells.size := by
      rw [image.size_cells, ← Nat.mul_assoc, Nat.mul_comm image.rows]
    have near_x : Near (Coordinate.ofExtent image.planes).natAbs (image.cols : ℤ) := by
      rw [Coordinate.ofExtent_of_quarter (by omega)]
      simp only [Near, Int.natAbs_natCast, wide]
      omega
    have near_y : Near (Coordinate.ofExtent (image.cols * image.planes)).natAbs
        (image.rows : ℤ) := by
      rw [Coordinate.ofExtent_of_quarter (by omega)]
      simp only [Near, Int.natAbs_natCast, long]
      omega
    have words : quarter < Extent.modulus := by decide
    have pixels : image.cols * image.rows ≤ image.cells.size := by
      rw [image.size_cells]
      exact Nat.le_mul_of_pos_right _ (Nat.zero_lt_of_lt hplane)
    rw [Coordinate.ofExtent_of_quarter (by omega)]
    exact image_admits (le_greatest room) (.inr ⟨by omega, by omega⟩)
      (near_x.of_natAbs_le (by simp only [Sampler.image] at hx'; omega))
      (near_y.of_natAbs_le (by simp only [Sampler.image] at hy'; omega)) (by omega)
  read := by
    intro x y place hx hx' hy hy' tracks
    have addressable : image.Addressable := le_greatest room
    obtain ⟨x, rfl⟩ := Int.eq_ofNat_of_zero_le hx
    obtain ⟨y, rfl⟩ := Int.eq_ofNat_of_zero_le hy
    have hx : x < image.cols := Int.ofNat_lt.1 hx'
    have hy : y < image.rows := Int.ofNat_lt.1 hy'
    have extents := image.extents_le (Nat.zero_lt_of_lt hx) (Nat.zero_lt_of_lt hy)
      (Nat.zero_lt_of_lt hplane)
    rw [Coordinate.ofExtent_of_quarter (by omega)] at tracks
    obtain ⟨origin, horigin, rfl⟩ := tracks
    obtain rfl : origin = (0 : ℤ) := image_origin horigin
    have address : (Sampler.image (σ := σ) image).addressing.moved (0 : ℤ) x y plane =
        (image.index x y plane : ℤ) := by
      rw [← Image.index_eq_strides addressable hx hy hplane]
      simp [Addressing.moved, Sampler.image]
    have fetched := Image.fetch_eq_value addressable hx hy hplane
    rw [Image.value_of_inside hx hy hplane] at fetched
    rw [address]
    simp only [Sampler.image, Extent.ofCoordinate_natCast, fetched]

variable {s : Sampler σ (A.Value p)} {x y : ℤ} {plane : ℕ}

/-- The correlation with a turned kernel over a window that cursors can walk. -/
theorem correlateWindow_eq_foldWindow {before : ℤ × ℤ} {pixel : ℕ → ℕ → Probe σ (A.Value p)}
    (hcorner : Coordinate.Fits (x - before.1) ∧ Coordinate.Fits (y - before.2))
    (hread : ∀ i j : ℕ, i < kernel.cols → j < kernel.rows → ∀ place,
      s.Tracks place (x - before.1 + i) (y - before.2 + j) (Coordinate.ofExtent plane) →
      s.read place = pixel i j)
    (hreach : ∀ i j : ℕ, i ≤ kernel.cols → j ≤ kernel.rows →
      s.Admits Strict (x - before.1 + i) (y - before.2 + j) (Coordinate.ofExtent plane))
    (hkernel : kernel.Addressable) :
    s.correlateWindow h kernel before x y plane = foldWindow h kernel pixel := by
  have first := hreach 0 0 (Nat.zero_le _) (Nat.zero_le _)
  simp only [Int.natCast_zero, Int.add_zero] at first
  obtain ⟨place, hplace⟩ := first.succeeds
  have tracks := tracks_of_place hplace
  have walk : s.correlate2d h kernel .rotated place = foldWindow h kernel pixel := by
    refine correlate2d_eq_foldWindow (fun i j hi hj => ?_) (fun i j hi hj => ?_) hkernel
    · exact hread i j hi hj _ (by simpa using tracks.moved i j 0)
    · have fits := (tracks.moved i j 0).fits (E := Strict) (by simpa using hreach i j hi hj)
      exact fits.resolve_left id
  unfold correlateWindow Coordinate.sub
  rw [Coordinate.checked_of_fits hcorner.1, Coordinate.checked_of_fits hcorner.2]
  change (liftM (s.place _ _ _) : Probe σ _) >>= s.correlate2d h kernel .rotated = _
  rw [hplace]
  exact walk

end Sampler

section Windows

variable {cols rows : ℕ} (anchor : Anchor cols rows)

theorem Anchor.shift_eq (hcols : (cols : ℤ) ≤ Coordinate.greatest)
    (hrows : (rows : ℤ) ≤ Coordinate.greatest) :
    anchor.shift = ((cols : ℤ) - 1 - anchor.col, (rows : ℤ) - 1 - anchor.row) := by
  have := anchor.col_lt
  have := anchor.row_lt
  simp only [Anchor.shift, Anchor.before]
  rw [Coordinate.ofExtent_of_le (by omega), Coordinate.ofExtent_of_le (by omega)]
  apply Prod.ext <;> simp only <;> omega

/-- The corners of the half-open window around `(x, y)` are coordinates. -/
structure Anchor.WindowFits (x y : ℤ) : Prop where
  left : Coordinate.Fits (x - (cols - 1 - anchor.col))
  right : Coordinate.Fits (x + anchor.col + 1)
  top : Coordinate.Fits (y - (rows - 1 - anchor.row))
  bottom : Coordinate.Fits (y + anchor.row + 1)

variable {anchor} {x y : ℤ}

theorem Anchor.WindowFits.inside (fits : anchor.WindowFits x y) {i j : ℕ} (hi : i ≤ cols)
    (hj : j ≤ rows) : Coordinate.Fits (x - (cols - 1 - anchor.col) + i) ∧
      Coordinate.Fits (y - (rows - 1 - anchor.row) + j) := by
  obtain ⟨left, right, top, bottom⟩ := fits
  unfold Coordinate.Fits at *
  omega

variable (anchor) (x y)

/-- The window around `(x, y)` lies inside the extent of the sampler. -/
def Sampler.Window (s : Sampler σ α) : Prop :=
  (0 ≤ x - (cols - 1 - anchor.col) ∧ x + anchor.col + 1 ≤ s.cols) ∧
    0 ≤ y - (rows - 1 - anchor.row) ∧ y + anchor.row + 1 ≤ s.rows

instance (s : Sampler σ α) : Decidable (s.Window anchor x y) :=
  inferInstanceAs (Decidable ((_ ∧ _) ∧ _))

/-- The pixel in column `i` and row `j` of the window around `(x, y)`, read through the border. -/
def Sampler.windowPixel (s : Sampler σ α) (border : Border) (blank : α) (plane i j : ℕ) :
    Probe σ α :=
  border.pixel s blank (x - (cols - 1 - anchor.col) + i) (y - (rows - 1 - anchor.row) + j) plane

end Windows

namespace Sampler

variable {s : Sampler σ (A.Value p)} {x y : ℤ} {plane : ℕ} {border : Border}
  {anchor : Anchor kernel.cols kernel.rows}

/-- A window is taken to lie inside exactly when it does. -/
theorem covers_eq_window (extent : s.cols ≤ quarter ∧ s.rows ≤ quarter)
    (hkernel : kernel.Addressable) :
    s.covers kernel.cols kernel.rows anchor.shift x y = .ok (decide (s.Window anchor x y)) := by
  obtain ⟨hcols, hrows⟩ := hkernel.extents_le
  have side {len kernelLen at_ : ℕ} (hlen : len ≤ quarter)
      (hkernel : (kernelLen : ℤ) ≤ Coordinate.greatest) (hat : at_ < kernelLen) :
      Coordinate.Fits ((len : ℤ) - kernelLen) ∧
        Coordinate.Fits (len - kernelLen + (kernelLen - 1 - at_)) := by
    unfold quarter at hlen
    unfold Coordinate.greatest at hkernel
    unfold Coordinate.Fits Coordinate.least Coordinate.greatest
    omega
  have right := side extent.1 hcols anchor.col_lt
  have bottom := side extent.2 hrows anchor.row_lt
  apply Check.Yields.eq_ok
  unfold covers Window
  rw [anchor.shift_eq hcols hrows, Coordinate.ofExtent_of_le hcols, Coordinate.ofExtent_of_le hrows,
    Coordinate.ofExtent_of_quarter extent.1, Coordinate.ofExtent_of_quarter extent.2]
  split
  next before => exact .ok (decide_eq_false (by omega)).symm
  next before =>
    refine .bind (Coordinate.sub_yields (.inr right.1) fun _ => ?_)
    refine .bind (Coordinate.add_yields (.inr right.2) fun _ => ?_)
    split
    next outside => exact .ok (decide_eq_false (by omega)).symm
    next inside =>
      refine .bind (Coordinate.sub_yields (.inr bottom.1) fun _ => ?_)
      refine .bind (Coordinate.add_yields (.inr bottom.2) fun _ => ?_)
      exact .ok (decide_eq_decide.2 (by omega))

/-- Behind a border every window can be walked. -/
theorem correlateWindow_extend (word : plane < Extent.modulus) (hkernel : kernel.Addressable)
    (fits : anchor.WindowFits x y) :
    (s.extend border (A.blank p)).correlateWindow h kernel anchor.shift x y plane =
      foldWindow h kernel (s.windowPixel anchor x y border (A.blank p) plane) := by
  rw [anchor.shift_eq hkernel.extents_le.1 hkernel.extents_le.2]
  refine correlateWindow_eq_foldWindow ⟨fits.left, fits.top⟩ (fun i j _ _ place tracks => ?_)
    (fun i j hi hj => ?_) hkernel
  · exact computed_read word tracks
  · obtain ⟨column, row⟩ := fits.inside hi hj
    exact computed_admits (.inr ⟨column, row, Coordinate.ofExtent_fits word⟩)

/-- Inside the extent a window can be walked without its border. -/
theorem correlateWindow_direct (coherent : s.Coherent plane) (hkernel : kernel.Addressable)
    (fits : anchor.WindowFits x y) (inside : s.Window anchor x y) :
    s.correlateWindow h kernel anchor.shift x y plane =
      foldWindow h kernel (s.windowPixel anchor x y border (A.blank p) plane) := by
  have cols := kernel.cols_pos
  have rows := kernel.rows_pos
  unfold Window at inside
  rw [anchor.shift_eq hkernel.extents_le.1 hkernel.extents_le.2]
  refine correlateWindow_eq_foldWindow ⟨fits.left, fits.top⟩ (fun i j hi hj place tracks => ?_)
    (fun i j hi hj => ?_) hkernel
  · dsimp only at tracks
    rw [coherent.read (by omega) (by omega) (by omega) (by omega) tracks]
    have here : 0 ≤ x - (kernel.cols - 1 - anchor.col) + i ∧
        0 ≤ y - (kernel.rows - 1 - anchor.row) + j ∧
        x - (kernel.cols - 1 - anchor.col) + i < s.cols ∧
        y - (kernel.rows - 1 - anchor.row) + j < s.rows := by omega
    exact (if_pos here).symm
  · dsimp only
    exact coherent.reach (by omega) (by omega) (by omega) (by omega) (by omega) (by omega)

theorem convolveAt_eq_foldWindow (coherent : s.Coherent plane)
    (extent : s.cols ≤ quarter ∧ s.rows ≤ quarter) (word : plane < Extent.modulus)
    (hkernel : kernel.Addressable) (fits : anchor.WindowFits x y) :
    s.convolveAt h kernel anchor (some border) x y plane =
      foldWindow h kernel (s.windowPixel anchor x y border (A.blank p) plane) := by
  have covered : s.covers kernel.cols kernel.rows anchor.shift x y =
      .ok (decide (s.Window anchor x y)) := covers_eq_window extent hkernel
  unfold Anchor.shift at covered
  simp only [convolveAt, covered]
  by_cases inside : s.Window anchor x y
  · rw [decide_eq_true inside]
    exact correlateWindow_direct coherent hkernel fits inside
  · rw [decide_eq_false inside]
    exact correlateWindow_extend word hkernel fits

end Sampler

section Folding

variable {E : Fault → Prop} {I : σ → Prop}

/-- What every step of a fold keeps, the fold keeps. -/
theorem foldlM_yields {ι β : Type} {f : β → ι → Probe σ β} (l : List ι)
    (hf : ∀ acc i st, I st → Yields E (f acc i) st fun _ st' => I st') (acc : β) {st : σ}
    (hst : I st) : Yields E (l.foldlM f acc) st fun _ st' => I st' := by
  induction l generalizing acc st with
  | nil => exact Yields.pure hst
  | cons i l ih =>
    rw [List.foldlM_cons]
    apply Yields.bind
    apply (hf acc i st hst).mono
    intro acc' st' hst'
    exact ih acc' hst'

/-- The fold over a window fails only as its pixels or the arithmetic do. -/
theorem foldWindow_yields {pixel : ℕ → ℕ → Probe σ (A.Value p)}
    (hpixel : ∀ i j st, I st → Yields E (pixel i j) st fun _ st' => I st')
    (hscale : ∀ (value : A.Value p) (factor : A.Factor k), (A.scale h value factor).Tolerable E)
    (hadd : ∀ a b : A.Value q, (A.add a b).Tolerable E) {st : σ} (hst : I st) :
    Yields E (foldWindow h kernel pixel) st fun _ st' => I st' := by
  refine foldlM_yields _ (fun sum j st hst => ?_) _ hst
  refine foldlM_yields _ (fun sum i st hst => ?_) _ hst
  apply Yields.bind
  apply (hpixel i j st hst).mono
  intro value st' hst'
  refine Yields.bind (Yields.probe_check (.of_tolerable (hscale value _) fun product _ => ?_))
  exact Yields.probe_check (.of_tolerable (hadd sum product) fun _ _ => hst')

variable {M : Type} [AddCommMonoid M] [DistribMulAction ℤ M] (R : Reading A k M) {n : ℕ}

/-- A fold whose steps add to the sum adds all that they add. -/
theorem foldlM_adds {f : A.Value q → Fin n → Probe σ (A.Value q)} {e : Fin n → M}
    (hf : ∀ sum i st, I st →
      Yields E (f sum i) st fun a st' => I st' ∧ R.pixel a = R.pixel sum + e i)
    (sum : A.Value q) {st : σ} (hst : I st) :
    Yields E ((List.finRange n).foldlM f sum) st fun a st' =>
      I st' ∧ R.pixel a = R.pixel sum + ∑ i, e i := by
  induction n generalizing sum st with
  | zero => exact Yields.pure ⟨hst, by simp⟩
  | succ n ih =>
    rw [List.finRange_succ, List.foldlM_cons]
    simp only [List.foldlM_map]
    apply Yields.bind
    apply (hf sum 0 st hst).mono
    intro first st' ⟨hst', hfirst⟩
    apply (ih (e := fun i => e i.succ) (fun sum i => hf sum i.succ) first hst').mono
    intro a st'' ⟨hst'', rest⟩
    refine ⟨hst'', ?_⟩
    rw [rest, hfirst, Fin.sum_univ_succ, add_assoc]

/-- The fold over a window is the sum of its products. -/
theorem foldWindow_adds {pixel : ℕ → ℕ → Probe σ (A.Value p)} {e : ℕ → ℕ → M}
    (hpixel : ∀ i j st, I st →
      Yields Lenient (pixel i j) st fun a st' => I st' ∧ R.pixel a = e i j) {st : σ} (hst : I st) :
    Yields Lenient (foldWindow h kernel pixel) st fun a _ => R.pixel a =
      ∑ j : Fin kernel.rows, ∑ i : Fin kernel.cols, R.coeff (kernel.coeff i.rev j.rev) • e i j := by
  have line (sum : A.Value q) (j : Fin kernel.rows) (st : σ) (hst : I st) :
      Yields Lenient (foldLine h (kernel.coeff · j.rev) (pixel · j) sum) st fun a st' =>
        I st' ∧ R.pixel a =
          R.pixel sum + ∑ i : Fin kernel.cols, R.coeff (kernel.coeff i.rev j.rev) • e i j := by
    refine foldlM_adds R (fun sum i st hst => ?_) sum hst
    apply Yields.bind
    apply (hpixel i j st hst).mono
    intro value st' ⟨hst', read⟩
    refine Yields.bind (Yields.probe_check (.of_tolerable (fun _ _ => trivial) fun w hw => ?_))
    refine Yields.probe_check (.of_tolerable (fun _ _ => trivial) fun a ha => ⟨hst', ?_⟩)
    rw [R.add h ha, R.scale h hw, read]
  apply (foldlM_adds R line (A.start q) hst).mono
  intro a st' ⟨_, total⟩
  rw [total, R.start h, zero_add]

/-- The opposite order of the coefficients is the order of the pixels seen from the anchor. -/
theorem sum_turned (anchor : Anchor kernel.cols kernel.rows) (e : ℤ → ℤ → M) (x y : ℤ) :
    ∑ j : Fin kernel.rows, ∑ i : Fin kernel.cols, R.coeff (kernel.coeff i.rev j.rev) •
        e (x - (kernel.cols - 1 - anchor.col) + (i : ℕ))
          (y - (kernel.rows - 1 - anchor.row) + (j : ℕ)) =
      ∑ i : Fin kernel.cols, ∑ j : Fin kernel.rows,
        R.coeff (kernel.coeff i j) • e (x + anchor.col - i) (y + anchor.row - j) := by
  rw [Finset.sum_comm]
  rw [← Equiv.sum_comp Fin.revPerm]
  refine Finset.sum_congr rfl fun i _ => ?_
  rw [← Equiv.sum_comp Fin.revPerm]
  refine Finset.sum_congr rfl fun j _ => ?_
  simp only [Fin.revPerm_apply, Fin.rev_rev, Fin.val_rev]
  congr 2 <;> omega

end Folding

/-- What is read through a border fails only as the pixels of the extent do. -/
theorem Border.pixel_yields {E : Fault → Prop} {I : σ → Prop} {border : Border} {s : Sampler σ α}
    {blank : α} {plane : ℕ} (extent : s.cols ≤ quarter ∧ s.rows ≤ quarter)
    (hget : ∀ u v : ℤ, 0 ≤ u → u < s.cols → 0 ≤ v → v < s.rows → ∀ st, I st →
      Yields E (s.get u v plane) st fun _ st' => I st') (x y : ℤ) {st : σ} (hst : I st) :
    Yields E (border.pixel s blank x y plane) st fun _ st' => I st' := by
  have index {len : ℕ} (hlen : len ≤ quarter) (pos : 0 < len) (i : ℤ) :
      (border.index i len).Yields E (· < len) := by
    have room : Coordinate.Fits (2 * (len : ℤ)) :=
      Coordinate.fits_of_quarters (by omega) (by omega)
    exact (index_yields border pos (le_greatest hlen) (.inr room)).mono fun _ maps => maps.1
  unfold Border.pixel
  split
  next inside => exact hget x y inside.1 inside.2.2.1 inside.2.1 inside.2.2.2 st hst
  split
  next => exact Yields.pure hst
  next blank =>
  refine Yields.bind (Yields.probe_check ((index extent.1 (by omega) x).mono ?_))
  intro column hcolumn
  refine Yields.bind (Yields.probe_check ((index extent.2 (by omega) y).mono ?_))
  intro row hrow
  rw [Coordinate.ofExtent_of_quarter (by omega), Coordinate.ofExtent_of_quarter (by omega)]
  exact hget column row (by omega) (by omega) (by omega) (by omega) st hst

/-- Point access to a convolution with a border folds the turned kernel over the extended source,
whether the window is walked directly or not. It fails only as the source or the arithmetic does,
and in exact arithmetic it gives the convolution sum. -/
theorem Sampler.convolve_folds_window {s : Sampler σ (A.Value p)} {border : Border}
    {anchor : Anchor kernel.cols kernel.rows} {x y : ℤ} {plane : ℕ}
    (coherent : s.Coherent plane) (extent : s.cols ≤ quarter ∧ s.rows ≤ quarter)
    (word : plane < Extent.modulus) (hkernel : kernel.Addressable)
    (fits : anchor.WindowFits x y) :
    (s.convolve h kernel anchor (some border)).get x y plane =
        foldWindow h kernel (fun i j => border.pixel s (A.blank p)
          (x - (kernel.cols - 1 - anchor.col) + i) (y - (kernel.rows - 1 - anchor.row) + j)
          plane) ∧
      (s.covers kernel.cols kernel.rows anchor.shift x y = .ok (decide (s.Window anchor x y)) ∧
        (s.Window anchor x y → s.correlateWindow h kernel anchor.shift x y plane =
          (s.extend border (A.blank p)).correlateWindow h kernel anchor.shift x y plane)) ∧
      (∀ (E : Fault → Prop) (I : σ → Prop),
        (∀ u v : ℤ, 0 ≤ u → u < s.cols → 0 ≤ v → v < s.rows → ∀ st, I st →
          Yields E (s.get u v plane) st fun _ st' => I st') →
        (∀ (value : A.Value p) (factor : A.Factor k), (A.scale h value factor).Tolerable E) →
        (∀ a b : A.Value q, (A.add a b).Tolerable E) → ∀ st, I st →
          Yields E ((s.convolve h kernel anchor (some border)).get x y plane) st
            fun _ st' => I st') ∧
      ∀ {M : Type} [AddCommMonoid M] [DistribMulAction ℤ M] (R : Reading A k M) (I : σ → Prop)
        (ext : ℤ → ℤ → M), (∀ u v st, I st →
          Yields Lenient (border.pixel s (A.blank p) u v plane) st fun a st' =>
            I st' ∧ R.pixel a = ext u v) → ∀ st, I st → ∀ a st',
          ((s.convolve h kernel anchor (some border)).get x y plane).run.run st = (.ok a, st') →
          R.pixel a = ∑ i : Fin kernel.cols, ∑ j : Fin kernel.rows,
            R.coeff (kernel.coeff i j) • ext (x + anchor.col - i) (y + anchor.row - j) := by
  have fold : (s.convolve h kernel anchor (some border)).get x y plane =
      foldWindow h kernel (s.windowPixel anchor x y border (A.blank p) plane) :=
    convolveAt_eq_foldWindow coherent extent word hkernel fits
  refine ⟨fold, ⟨covers_eq_window extent hkernel, fun inside => ?_⟩, ?_, ?_⟩
  · rw [correlateWindow_extend word hkernel fits,
      correlateWindow_direct coherent hkernel fits inside]
  · intro E I hget hscale hadd st hst
    rw [fold]
    exact foldWindow_yields (fun i j st hst => Border.pixel_yields extent hget _ _ hst) hscale hadd
      hst
  · intro M _ _ R I ext hext st hst a st' run
    rw [fold] at run
    rw [← sum_turned R anchor ext x y]
    exact (foldWindow_adds R (fun i j st hst => hext _ _ st hst) hst).value run

section Example

/-- Without a state a probe reads the same pixel whenever it is run. -/
theorem Reading.reads_unit {M : Type} [AddCommMonoid M] [DistribMulAction ℤ M] (R : Reading A k M)
    (m : Probe Unit (A.Value p)) (st : Unit) :
    Yields Lenient m st fun a _ => True ∧ R.pixel a = R.read (m.run.run ()).1 := by
  unfold Yields
  rcases m.run.run () with ⟨_ | a, _⟩
  · trivial
  · exact ⟨trivial, rfl⟩

/-- Six pixels in two rows. -/
def plate : Sampler Unit UInt8 :=
  .image { cols := 3, rows := 2, planes := 1, cells := #[1, 2, 3, 4, 5, 6], size_cells := rfl }

/-- A kernel that is larger than the plate. -/
def ramp : Kernel Int32 where
  cols := 4
  rows := 3
  coeffs := #[1, 2, 3, 4, 5, 6, 7, 8, 9, 10, 11, 12]
  cols_pos := by decide
  rows_pos := Nat.succ_pos 2
  size_coeffs := rfl

/-- The last coefficient of the first row of the ramp. -/
def cornerAnchor : Anchor ramp.cols ramp.rows where
  col := 3
  row := 0
  col_lt := by decide
  row_lt := by decide

/-- The plate filtered by the ramp about a corner of it. -/
def tilted : Sampler Unit Int32 :=
  Sampler.convolve (A := .standard) (p := PixelKind.u8) (k := CoeffKind.i32) (q := PixelKind.i32)
    plate rfl ramp cornerAnchor (some .reflect101)

theorem plate_coherent : plate.Coherent 0 := Sampler.image_coherent (by decide) (by decide)

/-- The extended plate as numbers. -/
def plateValue (x y : ℤ) : ℤ :=
  Reading.integer.read (p := PixelKind.u8) ((Border.reflect101.pixel plate
    (Arithmetic.standard.blank PixelKind.u8) x y 0).run.run ()).1

theorem tilted_folds_window : ∃ a, (tilted.get (-1) 1 0).run.run () = (.ok a, ()) ∧
    a.toInt = ∑ i : Fin ramp.cols, ∑ j : Fin ramp.rows,
      (ramp.coeff i j).toInt • plateValue (-1 + 3 - i) (1 + 0 - j) := by
  have addressable : ramp.Addressable := show (12 : ℤ) ≤ Coordinate.greatest by decide
  have fits : cornerAnchor.WindowFits (-1) 1 := ⟨by decide, by decide, by decide, by decide⟩
  have got : ((tilted.get (-1) 1 0).run.run ()).1.isOk := by decide +kernel
  obtain ⟨a, st, run, -⟩ := exists_of_isOk got
  obtain ⟨-, -, -, sums⟩ := Sampler.convolve_folds_window (A := .standard) (p := PixelKind.u8)
    (k := CoeffKind.i32) (q := PixelKind.i32) (h := rfl) plate_coherent (by decide) (by decide)
    addressable fits
  refine ⟨a, run, sums Reading.integer (fun _ => True) plateValue ?_ () trivial a () run⟩
  intro u v st _
  exact Reading.integer.reads_unit (p := PixelKind.u8) _ st

end Example

end ImageViews
