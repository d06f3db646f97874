import ImageViews.Proofs.Extension
import ImageViews.Tiler.Convolution

/-!
# Convolution of boxes

A box is convolved from a patch, an image that shows the windows of the box in the coordinates of
the source. Reading the patch needs no border, and gives the pixels that the border gives, so each
pixel is the sum over the window around it.
-/
namespace ImageViews

variable {α : Type} {E : Fault → Prop}

/-- The coefficients of the kernel can be addressed. -/
def Kernel.Addressable {κ : Type} (kernel : Kernel κ) : Prop :=
  (kernel.coeffs.size : Int) ≤ Coordinate.greatest

theorem Kernel.Addressable.extents_le {κ : Type} {kernel : Kernel κ} (h : kernel.Addressable) :
    (kernel.cols : Int) ≤ Coordinate.greatest ∧ (kernel.rows : Int) ≤ Coordinate.greatest := by
  have cols := Nat.le_mul_of_pos_right kernel.cols kernel.rows_pos
  have rows := Nat.le_mul_of_pos_left kernel.rows kernel.cols_pos
  unfold Addressable at h
  rw [kernel.size_coeffs] at h
  omega

/-- The window of the pixel reaches back by less than the extent of the kernel. -/
theorem Anchor.shift_bounds {cols rows : Nat} (anchor : Anchor cols rows)
    (hcols : (cols : Int) ≤ Coordinate.greatest) (hrows : (rows : Int) ≤ Coordinate.greatest) :
    (0 ≤ anchor.shift.1 ∧ anchor.shift.1 < cols) ∧ 0 ≤ anchor.shift.2 ∧
      anchor.shift.2 < rows := by
  have := anchor.col_lt
  have := anchor.row_lt
  simp only [shift, before]
  rw [Coordinate.ofExtent_of_le (by omega), Coordinate.ofExtent_of_le (by omega)]
  omega

/-- The box that the windows around the pixels of a box cover, in integer arithmetic. -/
def Box.windows {cols rows : Nat} (anchor : Anchor cols rows) (box : Box) : Box where
  x := box.x - anchor.shift.1
  y := box.y - anchor.shift.2
  width := box.width + cols - 1
  height := box.height + rows - 1

theorem Box.windows_has {cols rows : Nat} {anchor : Anchor cols rows} {box : Box} {x y : Int}
    {i j : Nat} (has : box.Has x y) (hi : i < cols) (hj : j < rows) :
    (box.windows anchor).Has (x - anchor.shift.1 + i) (y - anchor.shift.2 + j) := by
  unfold Has at has ⊢
  simp only [windows]
  omega

theorem Box.Within.windows {cols rows : Nat} {anchor : Anchor cols rows} {box box' : Box}
    (h : box.Within box') (hcols : 0 < cols) (hrows : 0 < rows) :
    (box.windows anchor).Within (box'.windows anchor) := by
  unfold Within at h ⊢
  simp only [Box.windows]
  omega

namespace Tiler

variable {box : Box} {planes bytes : Nat}

theorem windowsBox_yields {cols rows : Nat} {anchor : Anchor cols rows}
    (room : Tolerant E ∨ (box.windows anchor).Moderate bytes planes) :
    (windowsBox anchor box).Yields E (· = box.windows anchor) := by
  have := anchor.col_lt
  have := anchor.row_lt
  have fits := room.imp_right fun moderate => by
    have bounds := moderate.bounds
    have width := moderate.width_le
    have height := moderate.height_le
    have : (Coordinate.Fits (box.x - anchor.shift.1) ∧ Coordinate.Fits (box.y - anchor.shift.2)) ∧
        box.width + cols < Extent.modulus ∧ box.height + rows < Extent.modulus := by
      simp only [Box.windows, quarter] at bounds width height
      unfold Coordinate.Fits Coordinate.least Coordinate.greatest Extent.modulus
      omega
    exact this
  unfold windowsBox
  refine Check.Yields.bind (Coordinate.sub_yields (fits.imp (· _) (·.1.1)) ?_)
  intro _
  refine Check.Yields.bind (Coordinate.sub_yields (fits.imp (· _) (·.1.2)) ?_)
  intro _
  refine Check.Yields.bind (Extent.add_yields (fits.imp (· _) (·.2.1)) ?_)
  intro _
  refine Check.Yields.bind (Extent.sub_yields (.inr (by omega)) ?_)
  intro _
  refine Check.Yields.bind (Extent.add_yields (fits.imp (· _) (·.2.2)) ?_)
  intro _
  exact Check.Yields.bind (Extent.sub_yields (.inr (by omega)) fun _ => Check.Yields.ok rfl)

/-- The patch shows the pixels of the box in the coordinates of the box. -/
structure Patch.Shows (patch : Patch α) (box : Box) (planes : Nat)
    (pixel : Int → Int → Nat → Check α) : Prop where
  dx_eq : patch.dx = -box.x
  dy_eq : patch.dy = -box.y
  displays : patch.image.Displays box.width box.height planes
    fun x y p => pixel (box.x + x) (box.y + y) p

namespace Patch

variable {patch : Patch α} {pixel : Int → Int → Nat → Check α}

theorem ofBox_yields {image : Image α}
    (displays : image.Displays box.width box.height planes
      fun x y p => pixel (box.x + x) (box.y + y) p)
    (room : Tolerant E ∨ box.Moderate bytes planes) :
    (ofBox image box).Yields E (·.Shows box planes pixel) := by
  have fits := room.imp_right fun moderate => by
    obtain ⟨⟨_, _⟩, _, _⟩ := moderate.bounds
    have left : Coordinate.Fits (-box.x) := Coordinate.fits_of_quarters (by omega) (by omega)
    have top : Coordinate.Fits (-box.y) := Coordinate.fits_of_quarters (by omega) (by omega)
    exact And.intro left top
  refine Check.Yields.bind (Coordinate.neg_yields (fits.imp (· _) (·.1)) ?_)
  intro _
  refine Check.Yields.bind (Coordinate.neg_yields (fits.imp (· _) (·.2)) ?_)
  intro _
  exact Check.Yields.ok ⟨rfl, rfl, displays⟩

theorem Shows.value_eq (h : patch.Shows box planes pixel) {x y : Int} {p : Nat}
    (has : box.Has x y) (hp : p < planes) :
    patch.image.value (x + patch.dx) (y + patch.dy) p = pixel x y p := by
  obtain ⟨⟨left, right⟩, top, bottom⟩ := has
  obtain ⟨i, hi⟩ := Int.eq_ofNat_of_zero_le (show 0 ≤ x - box.x by omega)
  obtain ⟨j, hj⟩ := Int.eq_ofNat_of_zero_le (show 0 ≤ y - box.y by omega)
  rw [h.dx_eq, h.dy_eq, ← Int.sub_eq_add_neg, ← Int.sub_eq_add_neg, hi, hj,
    h.displays.value_eq (by omega) (by omega) hp]
  congr 1 <;> omega

/-- The planes of a patch with pixels fit a signed word. -/
theorem Shows.planes_le (h : patch.Shows box planes pixel) {x y : Int} (has : box.Has x y)
    (hplanes : 0 < planes) : (planes : Int) ≤ Coordinate.greatest := by
  unfold Box.Has at has
  exact (h.displays.extents_fit (by omega) (by omega) hplanes).2.2

theorem Shows.holds (h : patch.Shows box planes pixel) {x y : Int} (has : box.Has x y) :
    patch.image.Holds (x + patch.dx) (y + patch.dy) := by
  unfold Box.Has at has
  unfold Image.Holds
  rw [h.dx_eq, h.dy_eq, h.displays.cols_eq, h.displays.rows_eq]
  omega

/-- Cursors reach every pixel of the box through the patch, and the places behind its end. -/
theorem Shows.admits (h : patch.Shows box planes pixel)
    (room : Tolerant E ∨ box.Moderate bytes planes) {σ : Type} {cols rows : Nat} {x y p : Int}
    (hx : box.x ≤ x ∧ x ≤ box.x + box.width) (hy : box.y ≤ y ∧ y ≤ box.y + box.height)
    (hp : 0 ≤ p ∧ p ≤ planes) :
    ((Sampler.image (σ := σ) patch.image).crop patch.dx patch.dy cols rows).Admits E x y p := by
  rcases room with tolerant | moderate
  · exact fun fault _ => tolerant fault
  obtain ⟨dx_eq, dy_eq, cols_eq, rows_eq, planes_eq, addressable, -⟩ := h
  have depth := moderate.depth
  have storable := moderate.buffer.storable
  have buffer := moderate.buffer
  have col := moderate.strides.1
  have row := moderate.strides.2
  rw [← planes_eq] at col
  rw [← cols_eq, ← planes_eq] at row
  have reach {x y p : Int} (hx : Near planes x) (hy : Near (box.width * planes) y)
      (hp : 0 ≤ p ∧ p ≤ planes) : (Sampler.image (σ := σ) patch.image).Admits E x y p := by
    refine Sampler.image_admits addressable (.inr ?_) ?_ ?_ (by omega)
    · rw [cols_eq, rows_eq, planes_eq]
      exact ⟨storable.pixels_lt, storable.line_lt⟩
    · rwa [col, planes_eq]
    · rwa [row, cols_eq, planes_eq]
  rw [dx_eq, dy_eq]
  refine Sampler.crop_admits rfl (reach moderate.left.neg moderate.top.neg (by omega)) ?_ ?_ ?_
    (by omega)
  · refine reach ?_ ?_ hp
    · exact buffer.left.between buffer.right (by simp [Box.ofExtent]; omega)
        (by simp [Box.ofExtent]; omega)
    · exact buffer.top.between buffer.bottom (by simp [Box.ofExtent]; omega)
        (by simp [Box.ofExtent]; omega)
  · simp only [Sampler.image, Addressing.steps]
    rw [col, planes_eq]
    exact moderate.left.between moderate.right hx.1 hx.2
  · simp only [Sampler.image, Addressing.steps]
    rw [row, cols_eq, planes_eq]
    exact moderate.top.between moderate.bottom hy.1 hy.2

/-- The patch shows the pixels of the box. -/
theorem Shows.shows {σ : Type} {I : σ → Prop} (h : patch.Shows box planes pixel)
    (room : Tolerant E ∨ box.Moderate bytes planes) {cols rows : Nat} {x y : Int} {p : Nat}
    (has : box.Has x y) (hp : p < planes) :
    ((Sampler.image (σ := σ) patch.image).crop patch.dx patch.dy cols rows).Shows E I
      (pixel x y p) x y p := by
  rw [← h.value_eq has hp]
  refine Sampler.crop_shows (patch.image.shows h.displays.addressable (h.holds has)
    (h.displays.planes_eq.symm ▸ hp)) (room.imp (· _) ?_)
  intro moderate
  have width := moderate.width_le
  have height := moderate.height_le
  unfold Box.Has at has
  rw [h.dx_eq, h.dy_eq]
  constructor
  · exact Coordinate.fits_of_quarters (by omega) (by omega)
  · exact Coordinate.fits_of_quarters (by omega) (by omega)

end Patch

variable {A : Arithmetic} {p q : A.Pixel} {k : A.Coeff} {h : A.product p k = some q}
  {t : Tiler (A.Value p)} {log : Log} {shown : Int → Int → Nat → Check (A.Value p)}

/-- Rendering what the windows of a box cover. -/
theorem windowsPatch_yields {cols rows : Nat} {anchor : Anchor cols rows}
    {border : Option Border}
    (room : Tolerant E ∨ (box.windows anchor).Moderate bytes planes)
    (hsource : ∀ log, Yields (Failure.Tolerated E)
      (t.regionWith border (A.storage p) (box.windows anchor)) log fun image _ =>
        image.Displays (box.windows anchor).width (box.windows anchor).height planes
          fun x y p => shown ((box.windows anchor).x + x) ((box.windows anchor).y + y) p) :
    Yields (Failure.Tolerated E) (t.windowsPatch anchor border box) log fun patch _ =>
      patch.Shows (box.windows anchor) planes shown := by
  unfold windowsPatch
  refine Yields.bind (Yields.check ((windowsBox_yields room).mono ?_))
  rintro _ rfl
  apply Yields.bind
  apply (hsource log).mono
  intro image log displays
  exact Yields.check (Patch.ofBox_yields displays room)

/-- The sum of the products of the rotated kernel with the window around a pixel. -/
def windowSum (h : A.product p k = some q) (kernel : Kernel (A.Factor k)) (shift : Int × Int)
    (pixel : Int → Int → Nat → Check (A.Value p)) (x y : Int) (plane : Nat) : Check (A.Value q) :=
  kernel.sum h fun i j => pixel (x - shift.1 + i) (y - shift.2 + j) plane

/-- The coordinates of the windows of a box that is moderate once it is grown by the kernel. -/
theorem windowFits_of_has {cols rows : Nat} {anchor : Anchor cols rows}
    (room : Tolerant E ∨ (box.windows anchor).Moderate bytes planes) {x y : Int}
    (has : box.Has x y) : Sampler.WindowFits E cols rows anchor.shift x y := by
  apply room.imp (· _)
  intro moderate i j hi hj
  have bounds := moderate.bounds
  unfold Box.Has at has
  simp only [Box.windows, quarter] at bounds
  unfold Coordinate.Fits Coordinate.least Coordinate.greatest
  omega

/-- The test whether a window is covered stays within its word. -/
theorem coverFits_of_extent {σ : Type} {s : Sampler σ (A.Value p)} {cols rows : Nat}
    {anchor : Anchor cols rows} (hcols : (cols : Int) ≤ Coordinate.greatest)
    (hrows : (rows : Int) ≤ Coordinate.greatest)
    (room : Tolerant E ∨ s.cols ≤ quarter ∧ s.rows ≤ quarter) :
    s.CoverFits E cols rows anchor.shift := by
  have shift := anchor.shift_bounds hcols hrows
  refine room.imp (· _) fun ⟨width, height⟩ => ?_
  rw [Coordinate.ofExtent_of_quarter width, Coordinate.ofExtent_of_quarter height]
  unfold quarter at width height
  unfold Coordinate.greatest at hcols hrows
  unfold Coordinate.Fits Coordinate.least Coordinate.greatest
  omega

theorem convolve_paints {kernel : Kernel (A.Factor k)}
    {anchor : Anchor kernel.cols kernel.rows} {border : Option Border} {bytes bytes' : Nat}
    (hkernel : kernel.Addressable)
    (room : Tolerant E ∨ (box.Moderate bytes t.planes ∧
      (box.windows anchor).Moderate bytes' t.planes) ∧ t.cols ≤ quarter ∧ t.rows ≤ quarter)
    (hsource : ∀ log, Yields (Failure.Tolerated E)
      (t.regionWith border (A.storage p) (box.windows anchor)) log fun image _ =>
        image.Displays (box.windows anchor).width (box.windows anchor).height t.planes
          fun x y p => shown ((box.windows anchor).x + x) ((box.windows anchor).y + y) p)
    (calm : ∀ x y plane, box.Has x y → plane < t.planes →
      (windowSum h kernel anchor.shift shown x y plane).Tolerable E) :
    (t.convolve h kernel anchor border).Paints E (windowSum h kernel anchor.shift shown) box := by
  intro n handle hs takes cells log
  obtain ⟨hcols, hrows⟩ := hkernel.extents_le
  have windows := room.imp_right (·.1.2)
  refine Yields.bind (Handle.accept_yields takes ?_)
  refine Yields.bind (?_ : Yields _ (Paint.record _) _ _)
  change Yields _ _ (cells, log ++ _) _
  refine Yields.bind (Yields.render ((windowsPatch_yields windows hsource).mono ?_))
  intro patch log patched
  have takes' : handle.Takes box patch.image.planes :=
    ⟨takes.1, takes.2.1, takes.2.2.trans patched.displays.planes_eq.symm⟩
  refine (Sampler.paint_yields (I := fun _ => True) hs takes' (fun x y plane inside => ?_)
    (fun x y plane inside => ?_) (fun x y plane hx hy hp => ?_) trivial).mono
    fun _ s painted => painted.1
  · obtain ⟨has, hp⟩ : box.Has (box.x + x) (box.y + y) ∧ plane < t.planes := takes.has inside
    apply Sampler.computed_shows
    intro tolerable st hst
    refine Sampler.convolveAt_none_yields hcols hrows
      (coverFits_of_extent hcols hrows (room.imp_right (·.2))) (windowFits_of_has windows has)
      (fun i j hi hj => ?_) (fun i j hi hj => ?_) (.inr hkernel) (hs.coords_le inside).2.2
      tolerable hst
    · exact patched.shows windows (Box.windows_has has hi hj) hp
    · refine patched.admits windows ?_ ?_ (by omega)
      · unfold Box.Has at has
        simp only [Box.windows]
        omega
      · unfold Box.Has at has
        simp only [Box.windows]
        omega
  · obtain ⟨has, hp⟩ := takes.has inside
    exact calm _ _ _ has hp
  · refine Sampler.computed_admits (room.imp (· _) fun ⟨⟨moderate, _⟩, _⟩ => ?_)
    have bounds := moderate.bounds
    have depth := moderate.depth
    have planes_le : plane ≤ t.planes := patched.displays.planes_eq ▸ hp
    refine ⟨?_, ?_, ?_⟩ <;> exact Coordinate.fits_of_quarters (by omega) (by omega)

end Tiler

end ImageViews
