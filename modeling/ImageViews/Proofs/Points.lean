import ImageViews.Proofs.Stored
import ImageViews.Proofs.Windows

/-!
# Point access

Each combinator of samplers shows the pixels that its definition promises, through coordinates and
through cursors alike, as soon as the sampler under it shows the pixels that it reads. Cursors over
stored pixels move by strides and those over computed pixels by coordinates, and a crop moves the
origin of either.
-/
namespace ImageViews.Sampler

variable {α σ : Type} {E : Fault → Prop} {I : σ → Prop} {s : Sampler σ α}

section Leaves

variable {x y plane : Nat}

theorem image_origin {image : Image α} {origin : Int}
    (h : (Sampler.image (σ := σ) image).origin = .ok origin) : origin = 0 := by
  have zero : ((Sampler.image (σ := σ) image).origin).Yields (· = .overflow)
      (fun origin => origin = (0 : Int)) :=
    Check.Yields.bind (image.strided_yields.mono fun _ _ => Check.Yields.ok rfl)
  exact zero.value h

theorem image_shows {image : Image α} (ha : image.Addressable) (hx : x < image.cols)
    (hy : y < image.rows) (hp : plane < image.planes) :
    (Sampler.image image).Shows E I (image.value x y plane) x y plane where
  get tolerable st hst := by
    refine Yields.probe_check (Check.Yields.of_tolerable ?_ fun a h => ⟨hst, ?_⟩)
    · rwa [Extent.ofCoordinate_natCast, Extent.ofCoordinate_natCast,
        Image.fetch_eq_value ha hx hy hp]
    · rwa [Extent.ofCoordinate_natCast, Extent.ofCoordinate_natCast,
        Image.fetch_eq_value ha hx hy hp] at h
  read tolerable place hplace st hst := by
    obtain ⟨origin, horigin, rfl⟩ := hplace
    obtain rfl : origin = (0 : Int) := image_origin horigin
    have inside := image.index_lt hx hy hp
    apply Yields.probe_check
    have address : (Sampler.image (σ := σ) image).addressing.moved (0 : Int) x y plane =
        (image.index x y plane : Int) := by
      rw [← Image.index_eq_strides ha hx hy hp]
      simp [Addressing.moved, Sampler.image]
    rw [address, Image.value_of_inside hx hy hp]
    simp only [Extent.ofCoordinate_natCast]
    rw [fetchCell_of_lt inside]
    exact Check.Yields.ok ⟨hst, rfl⟩

theorem strided_shows {grid : Strided α} (hg : grid.Sound) (hx : x < grid.cols)
    (hy : y < grid.rows) (hp : plane < grid.planes) :
    (Sampler.strided grid).Shows E I (grid.value x y plane) x y plane where
  get tolerable st hst := by
    refine Yields.probe_check (Check.Yields.of_tolerable ?_ fun a h => ⟨hst, ?_⟩)
    · rwa [Strided.get_eq_value hg hx hy hp]
    · rwa [Strided.get_eq_value hg hx hy hp] at h
  read tolerable place hplace st hst := by
    obtain ⟨origin, horigin, rfl⟩ := hplace
    obtain rfl : (0 : Int) = origin := Except.ok.inj horigin
    have address : (Sampler.strided (σ := σ) grid).addressing.moved (0 : Int) x y plane =
        (x * grid.colStride + y * grid.rowStride + plane : Int) := by
      simp [Addressing.moved, Sampler.strided, Strided.addressing]
    rw [address]
    refine Yields.probe_check (Check.Yields.of_tolerable ?_ fun a h => ⟨hst, ?_⟩)
    · rwa [Strided.read_eq_value hg hx hy hp]
    · rwa [Strided.read_eq_value hg hx hy hp] at h

end Leaves

section Crops

variable {x0 y0 x y p : Int} {cols rows plane : Nat}

theorem Tracks.of_crop {place : s.addressing.Place}
    (h : (s.crop x0 y0 cols rows).Tracks place x y p) : s.Tracks place (x + x0) (y + y0) p := by
  obtain ⟨origin, horigin, rfl⟩ := h
  have moved := (tracks_of_place horigin).moved x y p
  rwa [Int.add_comm x0, Int.add_comm y0, Int.zero_add] at moved

theorem crop_shows {pixel : Check α} (h : s.Shows E I pixel (x + x0) (y + y0) plane)
    (room : E .overflow ∨ Coordinate.Fits (x + x0) ∧ Coordinate.Fits (y + y0)) :
    (s.crop x0 y0 cols rows).Shows E I pixel x y plane where
  get tolerable st hst := by
    refine Yields.bind (Yields.probe_check (Coordinate.add_yields (room.imp_right (·.1)) ?_))
    intro _
    refine Yields.bind (Yields.probe_check (Coordinate.add_yields (room.imp_right (·.2)) ?_))
    intro _
    exact h.get tolerable st hst
  read tolerable place hplace st hst := h.read tolerable place hplace.of_crop st hst

end Crops

section Computed

variable {cols rows planes plane : Nat} {x y : Int} {get : Int → Int → Nat → Probe σ α}

theorem computed_shows {pixel : Check α}
    (h : pixel.Tolerable E → ∀ st, I st →
      Yields E (get x y plane) st fun a st' => I st' ∧ pixel = .ok a) :
    (computed cols rows planes get).Shows E I pixel x y plane where
  get := h
  read tolerable place hplace st hst := by
    obtain ⟨origin, horigin, rfl⟩ := hplace
    obtain rfl : ({} : Position) = origin := Except.ok.inj horigin
    have read : (computed cols rows planes get).read
        ((computed cols rows planes get).addressing.moved ({} : Position) x y plane) =
          get x y plane := by
      simp [computed, Addressing.moved]
    rw [read]
    exact h tolerable st hst

theorem computed_admits {p : Int}
    (room : E .overflow ∨ Coordinate.Fits x ∧ Coordinate.Fits y ∧ Coordinate.Fits p) :
    (computed cols rows planes get).Admits E x y p := by
  have reach : ((computed cols rows planes get).place x y p).Yields E fun _ => True := by
    refine Check.Yields.bind (Check.Yields.ok ?_)
    refine Check.Yields.bind (Coordinate.add_yields ?_ fun _ => ?_)
    · simpa using room.imp_right (·.1)
    refine Check.Yields.bind (Coordinate.add_yields ?_ fun _ => ?_)
    · simpa using room.imp_right (·.2.1)
    refine Check.Yields.bind (Coordinate.add_yields ?_ fun _ => Check.Yields.ok trivial)
    simpa using room.imp_right (·.2.2)
  exact reach.tolerable

end Computed

section Bordered

variable {border : Border} {blank : α} {x y : Int} {plane : Nat} {f : Int → Int → Check α}

theorem borderPixel_yields
    (h : ∀ u v, border.Reads .point s.cols s.rows x y u v → (f u v).Tolerable E → ∀ st, I st →
      Yields E (s.get u v plane) st fun a st' => I st' ∧ f u v = .ok a)
    (tolerable : (border.value .point blank s.cols s.rows f x y).Tolerable E) {st : σ}
    (hst : I st) :
    Yields E (border.pixel s blank x y plane) st fun a st' =>
      I st' ∧ border.value .point blank s.cols s.rows f x y = .ok a := by
  by_cases inside : Border.Inside .point s.cols s.rows x y
  · have direct : border.pixel s blank x y plane = s.get x y plane := if_pos inside
    rw [Border.value_of_inside inside] at tolerable ⊢
    rw [direct]
    exact h x y (.inside inside) tolerable st hst
  by_cases hblank : border.Blank s.cols s.rows
  · have outside : border.pixel s blank x y plane = pure blank :=
      (if_neg inside).trans (if_pos hblank)
    rw [Border.value_of_blank inside hblank, outside]
    exact Yields.pure ⟨hst, rfl⟩
  · have mapped : border.pixel s blank x y plane = (do
        let column ← border.index x s.cols
        let row ← border.index y s.rows
        s.get (Coordinate.ofExtent column) (Coordinate.ofExtent row) plane) :=
      (if_neg inside).trans (if_neg hblank)
    rw [Border.value_of_mapped inside hblank] at tolerable ⊢
    rw [mapped]
    refine Yields.bind (Yields.probe_check (.of_tolerable tolerable.of_bind ?_))
    intro column hcolumn
    rw [hcolumn, Check.ok_bind] at tolerable ⊢
    refine Yields.bind (Yields.probe_check (.of_tolerable tolerable.of_bind ?_))
    intro row hrow
    rw [hrow, Check.ok_bind] at tolerable ⊢
    exact h _ _ (.mapped inside hblank hcolumn hrow) tolerable st hst

theorem extend_shows
    (h : ∀ u v, border.Reads .point s.cols s.rows x y u v → s.Shows E I (f u v) u v plane) :
    (s.extend border blank).Shows E I (border.value .point blank s.cols s.rows f x y) x y plane :=
  computed_shows fun tolerable _ hst =>
    borderPixel_yields (fun u v reads => (h u v reads).get) tolerable hst

end Bordered

section Convolved

variable {A : Arithmetic} {p : A.Pixel} {k : A.Coeff} {q : A.Pixel} {h : A.product p k = some q}
  {s : Sampler σ (A.Value p)} {kernel : Kernel (A.Factor k)} {x y : Int} {plane : Nat} {st : σ}

theorem correlateWindow_yields (before : Int × Int) {pixel : Nat → Nat → Check (A.Value p)}
    (hshows : ∀ i j : Nat, i < kernel.cols → j < kernel.rows →
      s.Shows E I (pixel i j) (x - before.1 + i) (y - before.2 + j) plane)
    (hadmits : ∀ i j : Nat, i ≤ kernel.cols → j ≤ kernel.rows →
      s.Admits E (x - before.1 + i) (y - before.2 + j) plane)
    (hcorner : E .overflow ∨ Coordinate.Fits (x - before.1) ∧ Coordinate.Fits (y - before.2))
    (hkernel : E .overflow ∨ (kernel.coeffs.size : Int) ≤ Coordinate.greatest)
    (hplane : (plane : Int) ≤ Coordinate.greatest)
    (hsum : (kernel.sum h pixel).Tolerable E) (hst : I st) :
    Yields E (s.correlateWindow h kernel before x y plane) st fun a st' =>
      I st' ∧ kernel.sum h pixel = .ok a := by
  refine Yields.bind (Yields.probe_check (Coordinate.sub_yields (hcorner.imp_right (·.1)) ?_))
  intro _
  refine Yields.bind (Yields.probe_check (Coordinate.sub_yields (hcorner.imp_right (·.2)) ?_))
  intro _
  rw [Coordinate.ofExtent_of_le hplane]
  have hplace := place_yields (by simpa using hadmits 0 0 (Nat.zero_le _) (Nat.zero_le _))
  refine Yields.bind (Yields.probe_check (hplace.mono ?_))
  intro place tracks
  refine correlate2d_yields (fun i j hi hj tolerable => ?_) (fun i j hi hj => ?_) hkernel hsum hst
  · exact (hshows i j hi hj).read tolerable _ (by simpa using tracks.moved i j 0)
  · exact (tracks.moved i j 0).fits (by simpa using hadmits i j hi hj)

/-- A window that a sampler covers lies between its first and its last pixel. -/
theorem covers_yields {cols rows : Nat} {before : Int × Int}
    (hcols : (cols : Int) ≤ Coordinate.greatest) (hrows : (rows : Int) ≤ Coordinate.greatest)
    (room : E .overflow ∨
      (Coordinate.Fits (Coordinate.ofExtent s.cols - cols) ∧
        Coordinate.Fits (Coordinate.ofExtent s.cols - cols + before.1)) ∧
      (Coordinate.Fits (Coordinate.ofExtent s.rows - rows) ∧
        Coordinate.Fits (Coordinate.ofExtent s.rows - rows + before.2))) :
    (s.covers cols rows before x y).Yields E fun inside => inside = true →
      0 ≤ x - before.1 ∧ 0 ≤ y - before.2 ∧ x - before.1 + cols ≤ s.cols ∧
        y - before.2 + rows ≤ s.rows := by
  have hwidth := Coordinate.ofExtent_le s.cols
  have hheight := Coordinate.ofExtent_le s.rows
  unfold covers
  rw [Coordinate.ofExtent_of_le hcols, Coordinate.ofExtent_of_le hrows]
  split
  next => exact Check.Yields.ok (by simp)
  next before_le =>
    refine Check.Yields.bind (Coordinate.sub_yields (room.imp_right (·.1.1)) ?_)
    intro _
    refine Check.Yields.bind (Coordinate.add_yields (room.imp_right (·.1.2)) ?_)
    intro _
    split
    next => exact Check.Yields.ok (by simp)
    next right_le =>
      refine Check.Yields.bind (Coordinate.sub_yields (room.imp_right (·.2.1)) ?_)
      intro _
      refine Check.Yields.bind (Coordinate.add_yields (room.imp_right (·.2.2)) ?_)
      intro _
      apply Check.Yields.ok
      intro bottom_le
      simp only [decide_eq_true_eq] at bottom_le
      omega

/-- The coordinates of the window around `(x, y)` can be kept by a cursor, the place behind its end
included, or overflows are tolerated. -/
def WindowFits (E : Fault → Prop) (kernelCols kernelRows : Nat) (shift : Int × Int) (x y : Int) :
    Prop :=
  E .overflow ∨ ∀ i j : Nat, i ≤ kernelCols → j ≤ kernelRows →
    Coordinate.Fits (x - shift.1 + i) ∧ Coordinate.Fits (y - shift.2 + j)

/-- The test whether a window is covered does not overflow, or overflows are tolerated. -/
def CoverFits (s : Sampler σ (A.Value p)) (E : Fault → Prop) (kernelCols kernelRows : Nat)
    (shift : Int × Int) : Prop :=
  E .overflow ∨
    (Coordinate.Fits (Coordinate.ofExtent s.cols - kernelCols) ∧
      Coordinate.Fits (Coordinate.ofExtent s.cols - kernelCols + shift.1)) ∧
    (Coordinate.Fits (Coordinate.ofExtent s.rows - kernelRows) ∧
      Coordinate.Fits (Coordinate.ofExtent s.rows - kernelRows + shift.2))

theorem WindowFits.corner {kernelCols kernelRows : Nat} {shift : Int × Int}
    (fits : WindowFits E kernelCols kernelRows shift x y) :
    E .overflow ∨ Coordinate.Fits (x - shift.1) ∧ Coordinate.Fits (y - shift.2) :=
  fits.imp_right fun fits => by simpa using fits 0 0 (Nat.zero_le _) (Nat.zero_le _)

variable {cols rows : Nat} {anchor : Anchor cols rows}

/-- Without a border every window is read directly. -/
theorem convolveAt_none_yields {pixel : Nat → Nat → Check (A.Value p)}
    (hcols : (kernel.cols : Int) ≤ Coordinate.greatest)
    (hrows : (kernel.rows : Int) ≤ Coordinate.greatest)
    (hcovers : s.CoverFits E kernel.cols kernel.rows anchor.shift)
    (hwindow : WindowFits E kernel.cols kernel.rows anchor.shift x y)
    (hshows : ∀ i j : Nat, i < kernel.cols → j < kernel.rows →
      s.Shows E I (pixel i j) (x - anchor.shift.1 + i) (y - anchor.shift.2 + j) plane)
    (hadmits : ∀ i j : Nat, i ≤ kernel.cols → j ≤ kernel.rows →
      s.Admits E (x - anchor.shift.1 + i) (y - anchor.shift.2 + j) plane)
    (hkernel : E .overflow ∨ (kernel.coeffs.size : Int) ≤ Coordinate.greatest)
    (hplane : (plane : Int) ≤ Coordinate.greatest)
    (hsum : (kernel.sum h pixel).Tolerable E) (hst : I st) :
    Yields E (s.convolveAt h kernel anchor none x y plane) st fun a st' =>
      I st' ∧ kernel.sum h pixel = .ok a := by
  refine Yields.bind (Yields.probe_check ((covers_yields hcols hrows hcovers).mono ?_))
  intro _ _
  exact correlateWindow_yields _ hshows hadmits hwindow.corner hkernel hplane hsum hst

/-- With a border a window is read directly only where the border has no part in it. -/
theorem convolveAt_some_yields {border : Border} {f : Int → Int → Check (A.Value p)}
    (hcols : (kernel.cols : Int) ≤ Coordinate.greatest)
    (hrows : (kernel.rows : Int) ≤ Coordinate.greatest)
    (hcovers : s.CoverFits E kernel.cols kernel.rows anchor.shift)
    (hwindow : WindowFits E kernel.cols kernel.rows anchor.shift x y)
    (hshows : ∀ i j : Nat, i < kernel.cols → j < kernel.rows → ∀ u v,
      border.Reads .point s.cols s.rows (x - anchor.shift.1 + i) (y - anchor.shift.2 + j) u v →
      s.Shows E I (f u v) u v plane)
    (hadmits : ∀ u v : Int, 0 ≤ u → u ≤ s.cols → 0 ≤ v → v ≤ s.rows → s.Admits E u v plane)
    (hkernel : E .overflow ∨ (kernel.coeffs.size : Int) ≤ Coordinate.greatest)
    (hplane : (plane : Int) ≤ Coordinate.greatest)
    (hsum : (kernel.sum h fun i j => border.value .point (A.blank p) s.cols s.rows f
      (x - anchor.shift.1 + i) (y - anchor.shift.2 + j)).Tolerable E) (hst : I st) :
    Yields E (s.convolveAt h kernel anchor (some border) x y plane) st fun a st' =>
      I st' ∧ kernel.sum h (fun i j => border.value .point (A.blank p) s.cols s.rows f
        (x - anchor.shift.1 + i) (y - anchor.shift.2 + j)) = .ok a := by
  refine Yields.bind (Yields.probe_check ((covers_yields hcols hrows hcovers).mono ?_))
  intro inside hinside
  cases inside with
  | false =>
    refine correlateWindow_yields (s := s.extend border (A.blank p)) anchor.shift
      ?_ ?_ hwindow.corner hkernel hplane hsum hst
    · exact fun i j hi hj => extend_shows (hshows i j hi hj)
    · refine fun i j hi hj => computed_admits (hwindow.imp_right ?_)
      intro fits
      refine ⟨(fits i j hi hj).1, (fits i j hi hj).2, ?_, hplane⟩
      unfold Coordinate.least
      omega
  | true =>
    have covered := hinside rfl
    refine correlateWindow_yields anchor.shift ?_ ?_ hwindow.corner hkernel hplane hsum hst
    · intro i j hi hj
      have direct : Border.Inside .point s.cols s.rows (x - anchor.shift.1 + i)
          (y - anchor.shift.2 + j) := by
        simp only [Border.Inside, Access.inside_point]
        omega
      rw [Border.value_of_inside direct]
      exact hshows i j hi hj _ _ (.inside direct)
    · intro i j hi hj
      exact hadmits _ _ (by omega) (by omega) (by omega) (by omega)

end Convolved

end ImageViews.Sampler
