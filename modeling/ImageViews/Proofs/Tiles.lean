import ImageViews.Proofs.Boxes
import ImageViews.Proofs.Points
import ImageViews.Proofs.Rendering

/-!
# Boxes of stored pixels

A tiler paints a box when every destination that takes the box ends up with the pixels of the box
in its cells, and nothing else is touched. Stored pixels are painted by walking over a strided grid,
and a crop paints the moved box.
-/
namespace ImageViews

variable {α : Type} {E : Fault → Prop}

namespace Tiler

/-- Rasterizing the box paints the given pixels into every sound destination that takes it. -/
def Paints (t : Tiler α) (E : Fault → Prop) (pixel : Int → Int → Nat → Check α) (box : Box) :
    Prop :=
  ∀ ⦃n : Nat⦄ (handle : Handle n), handle.Sound → handle.Takes box t.planes → ∀ cells log,
    Yields (Failure.Tolerated E) (t.rasterize handle box) (cells, log) fun _ s =>
      handle.Painted handle.Inside (fun x y p => pixel (box.x + x) (box.y + y) p) cells s.1

end Tiler

theorem Handle.Takes.has {n : Nat} {handle : Handle n} {box : Box} {planes x y p : Nat}
    (takes : handle.Takes box planes) (inside : handle.Inside x y p) :
    box.Has (box.x + x) (box.y + y) ∧ p < planes := by
  obtain ⟨cols, rows, rfl⟩ := takes
  obtain ⟨hx, hy, hp⟩ := inside
  rw [cols] at hx
  rw [rows] at hy
  unfold Box.Has
  omega

namespace Image

variable {image : Image α} {x y : Int} {plane : Nat}

/-- The strided grid of an image of moderate extent. -/
theorem strided_tolerable (ha : image.Addressable)
    (room : E .overflow ∨ image.cols * image.rows < Extent.modulus ∧
      image.cols * image.planes < Extent.modulus) : image.strided.Tolerable E := by
  have made : image.strided.Yields E fun _ => True := by
    have count : image.cols * image.rows * image.planes < Extent.modulus := by
      unfold Addressable Coordinate.greatest at ha
      rw [image.size_cells] at ha
      unfold Extent.modulus
      omega
    refine Check.Yields.bind (Check.Yields.bind (Extent.mul_yields (room.imp_right (·.1)) ?_))
    refine fun _ => Extent.mul_yields (.inr count) ?_
    intro _
    refine Check.Yields.bind (Check.Yields.require (.inr ?_) fun _ => ?_)
    · exact Nat.le_of_eq image.size_cells.symm
    · exact Check.Yields.bind (Extent.mul_yields (room.imp_right (·.2)) fun _ => trivial)
  exact made.tolerable

/-- The pixel `(x, y)` belongs to the extent of the image. -/
def Holds (image : Image α) (x y : Int) : Prop :=
  (0 ≤ x ∧ x < image.cols) ∧ 0 ≤ y ∧ y < image.rows

theorem value_tolerable (holds : image.Holds x y) (hp : plane < image.planes) :
    (image.value x y plane).Tolerable E := by
  obtain ⟨⟨hx, hx'⟩, hy, hy'⟩ := holds
  obtain ⟨x, rfl⟩ := Int.eq_ofNat_of_zero_le hx
  obtain ⟨y, rfl⟩ := Int.eq_ofNat_of_zero_le hy
  have hx : x < image.cols := by omega
  have hy : y < image.rows := by omega
  rw [value_of_inside hx hy hp, fetchCell_of_lt (image.index_lt hx hy hp)]
  exact .ok _

theorem shows {σ : Type} {I : σ → Prop} (ha : image.Addressable) (holds : image.Holds x y)
    (hp : plane < image.planes) :
    (Sampler.image image).Shows E I (image.value x y plane) x y plane := by
  obtain ⟨⟨hx, hx'⟩, hy, hy'⟩ := holds
  obtain ⟨x, rfl⟩ := Int.eq_ofNat_of_zero_le hx
  obtain ⟨y, rfl⟩ := Int.eq_ofNat_of_zero_le hy
  exact Sampler.image_shows ha (by omega) (by omega) hp

/-- The strided grid of an image has the pixels of the image. -/
theorem strided_value (ha : image.Addressable) {grid : Strided α} (h : image.strided = .ok grid)
    (holds : image.Holds x y) (hp : plane < image.planes) :
    grid.value x y plane = image.value x y plane := by
  obtain rfl := image.strided_yields.value h
  obtain ⟨⟨hx, hx'⟩, hy, hy'⟩ := holds
  obtain ⟨x, rfl⟩ := Int.eq_ofNat_of_zero_le hx
  obtain ⟨y, rfl⟩ := Int.eq_ofNat_of_zero_le hy
  have hx : x < image.cols := by omega
  have hy : y < image.rows := by omega
  have address := index_eq_strides ha hx hy hp
  obtain ⟨col, row, -⟩ := (strided_sound ha h).terms hx hy hp
  rw [value_of_inside hx hy hp, Strided.value_of_inside hx hy]
  simp only at col row ⊢
  congr 1
  omega

end Image

namespace Sampler

variable {σ : Type} {x y p : Int}

/-- A cursor can be placed where the terms of its place have room to spare. -/
theorem admits_near {s : Sampler σ α} (planar : s.addressing.Planar)
    (hx : Near s.addressing.steps.1 x) (hy : Near s.addressing.steps.2 y)
    (hp : -quarter ≤ p ∧ p ≤ quarter) (horigin : s.origin.Tolerable E)
    (fits : ∀ origin, s.origin = .ok origin →
      E .overflow ∨ s.addressing.Fits (s.addressing.moved origin x y p)) :
    s.Admits E x y p :=
  horigin.bind fun origin ho => Addressing.advance_near planar hx hy hp (fits origin ho)

theorem strided_admits {grid : Strided α} (hx : Near grid.colStride.natAbs x)
    (hy : Near grid.rowStride.natAbs y) (hp : -quarter ≤ p ∧ p ≤ quarter) :
    (Sampler.strided grid : Sampler σ α).Admits E x y p := by
  refine admits_near rfl hx hy hp (fun fault h => nomatch h) ?_
  intro origin ho
  obtain rfl : (0 : Int) = origin := Except.ok.inj ho
  exact .inr (Addressing.fits_near hx hy hp)

theorem image_admits {image : Image α} (ha : image.Addressable)
    (room : E .overflow ∨ image.cols * image.rows < Extent.modulus ∧
      image.cols * image.planes < Extent.modulus)
    (hx : Near (Coordinate.ofExtent image.planes).natAbs x)
    (hy : Near (Coordinate.ofExtent (image.cols * image.planes)).natAbs y)
    (hp : -quarter ≤ p ∧ p ≤ quarter) : (Sampler.image (σ := σ) image).Admits E x y p := by
  refine admits_near rfl hx hy hp ?_ fun origin ho => ?_
  · exact (Image.strided_tolerable ha room).bind fun _ _ => .ok _
  · obtain rfl : origin = (0 : Int) := image_origin ho
    exact .inr (Addressing.fits_near hx hy hp)

theorem computed_admits_near {cols rows planes : Nat} {get : Int → Int → Nat → Probe σ α}
    {steps : Nat × Nat} (hx : Near steps.1 x) (hy : Near steps.2 y)
    (hp : -quarter ≤ p ∧ p ≤ quarter) :
    (Sampler.computed cols rows planes get).Admits E x y p := by
  obtain ⟨_, _⟩ := hx.bounds
  obtain ⟨_, _⟩ := hy.bounds
  refine computed_admits (.inr ?_)
  refine ⟨?_, ?_, ?_⟩ <;> exact Coordinate.fits_of_quarters (by omega) (by omega)

/-- A cursor can be placed through a crop where it can be placed in the sampler that is cropped. -/
theorem crop_admits {s : Sampler σ α} {x0 y0 : Int} {cols rows : Nat} (planar : s.addressing.Planar)
    (corner : s.Admits E x0 y0 0) (there : s.Admits E (x + x0) (y + y0) p)
    (hx : Near s.addressing.steps.1 x) (hy : Near s.addressing.steps.2 y)
    (hp : -quarter ≤ p ∧ p ≤ quarter) : (s.crop x0 y0 cols rows).Admits E x y p := by
  refine admits_near planar hx hy hp corner ?_
  intro origin ho
  have tracks := (tracks_of_place ho).moved x y p
  rw [Int.add_comm x0, Int.add_comm y0, Int.zero_add] at tracks
  exact tracks.fits there

end Sampler

namespace Strided

variable {grid : Strided α} {x y : Int} {plane : Nat}

/-- The pixel `(x, y)` belongs to the extent of the grid. -/
def Holds (grid : Strided α) (x y : Int) : Prop :=
  (0 ≤ x ∧ x < grid.cols) ∧ 0 ≤ y ∧ y < grid.rows

theorem Sound.value_tolerable (hg : grid.Sound) (holds : grid.Holds x y)
    (hp : plane < grid.planes) : (grid.value x y plane).Tolerable E := by
  obtain ⟨⟨hx, hx'⟩, hy, hy'⟩ := holds
  obtain ⟨x, rfl⟩ := Int.eq_ofNat_of_zero_le hx
  obtain ⟨y, rfl⟩ := Int.eq_ofNat_of_zero_le hy
  obtain ⟨col, row, lt⟩ := hg.terms (by omega : x < grid.cols) (by omega : y < grid.rows) hp
  rw [value_of_inside (by omega) (by omega), fetchCell_of_lt (by omega)]
  exact .ok _

theorem shows {σ : Type} {I : σ → Prop} (hg : grid.Sound) (holds : grid.Holds x y)
    (hp : plane < grid.planes) :
    (Sampler.strided grid).Shows E I (grid.value x y plane) x y plane := by
  obtain ⟨⟨hx, hx'⟩, hy, hy'⟩ := holds
  obtain ⟨x, rfl⟩ := Int.eq_ofNat_of_zero_le hx
  obtain ⟨y, rfl⟩ := Int.eq_ofNat_of_zero_le hy
  exact Sampler.strided_shows hg (by omega) (by omega) hp

end Strided

namespace Tiler

variable {box : Box}

theorem strided_paints_of_passes {grid : Strided α} (hg : grid.Sound)
    (covers : 0 < grid.planes → ∀ x y, box.Has x y → grid.Holds x y)
    (hadmits : ∀ x y p : Nat, Handle.Passes box.width box.height grid.planes x y p →
      (Sampler.strided grid : Sampler Log α).Admits E (box.x + x) (box.y + y) p) :
    (Tiler.strided grid).Paints E grid.value box := by
  intro n handle hs takes cells log
  have held {x y p : Nat} (inside : handle.Inside x y p) :
      grid.Holds (box.x + x) (box.y + y) ∧ p < grid.planes := by
    obtain ⟨has, hp⟩ := takes.has inside
    exact ⟨covers (Nat.zero_lt_of_lt hp) _ _ has, hp⟩
  refine (Sampler.paint_yields_of_passes (s := Sampler.strided grid) (I := fun _ => True) hs takes
    (fun x y p inside => Strided.shows hg (held inside).1 (held inside).2)
    (fun x y p inside => hg.value_tolerable (held inside).1 (held inside).2) hadmits
    trivial).mono fun _ s painted => painted.1

theorem strided_paints {grid : Strided α} (hg : grid.Sound)
    (covers : 0 < grid.planes → ∀ x y, box.Has x y → grid.Holds x y)
    (hadmits : ∀ x y p : Nat, x ≤ box.width → y ≤ box.height → p ≤ grid.planes →
      (Sampler.strided grid : Sampler Log α).Admits E (box.x + x) (box.y + y) p) :
    (Tiler.strided grid).Paints E grid.value box :=
  strided_paints_of_passes hg covers fun x y p h => hadmits x y p h.le.1 h.le.2.1 h.le.2.2

theorem image_paints_of_passes {image : Image α} (ha : image.Addressable)
    (covers : 0 < image.planes → ∀ x y, box.Has x y → image.Holds x y)
    (room : image.strided.Tolerable E)
    (hadmits : ∀ grid, image.strided = .ok grid → ∀ x y p : Nat,
      Handle.Passes box.width box.height image.planes x y p →
      (Sampler.strided grid : Sampler Log α).Admits E (box.x + x) (box.y + y) p) :
    (Tiler.image image).Paints E image.value box := by
  intro n handle hs takes cells log
  refine Yields.bind (Yields.check (.of_tolerable room ?_))
  intro grid hgrid
  have shape := image.strided_yields.value hgrid
  have planes_eq : grid.planes = image.planes := by rw [shape]
  have paints : (Tiler.strided grid).Paints E grid.value box := by
    refine strided_paints_of_passes (Image.strided_sound ha hgrid) ?_ ?_
    · rw [shape]
      exact covers
    · rw [planes_eq]
      exact hadmits grid hgrid
  have takes' : handle.Takes box grid.planes := planes_eq ▸ takes
  apply (paints handle hs takes' cells log).mono
  intro _ s painted
  refine painted.of_pixel fun inside _ => ?_
  obtain ⟨has, hp⟩ := takes.has inside
  exact Image.strided_value ha hgrid (covers (Nat.zero_lt_of_lt hp) _ _ has) hp

theorem image_paints {image : Image α} (ha : image.Addressable)
    (covers : 0 < image.planes → ∀ x y, box.Has x y → image.Holds x y)
    (room : image.strided.Tolerable E)
    (hadmits : ∀ grid, image.strided = .ok grid → ∀ x y p : Nat, x ≤ box.width →
      y ≤ box.height → p ≤ image.planes →
      (Sampler.strided grid : Sampler Log α).Admits E (box.x + x) (box.y + y) p) :
    (Tiler.image image).Paints E image.value box :=
  image_paints_of_passes ha covers room fun grid hgrid x y p h =>
    hadmits grid hgrid x y p h.le.1 h.le.2.1 h.le.2.2

variable {t : Tiler α} {pixel : Int → Int → Nat → Check α}

theorem crop_paints {x0 y0 : Int} {cols rows : Nat}
    (room : E .overflow ∨ Coordinate.Fits (box.x + x0) ∧ Coordinate.Fits (box.y + y0))
    (h : t.Paints E pixel { box with x := box.x + x0, y := box.y + y0 }) :
    (t.crop x0 y0 cols rows).Paints E (fun x y p => pixel (x + x0) (y + y0) p) box := by
  intro n handle hs takes cells log
  refine Yields.bind (Yields.check ((Box.translate_yields room).mono ?_))
  rintro _ rfl
  apply (h handle hs takes cells log).mono
  intro _ s painted
  apply painted.of_pixel
  intro x y p _ _
  rw [Int.add_right_comm, Int.add_right_comm box.y]

/-- The image of a box displays the pixels that are painted. -/
theorem region_yields {storage : Storage α} {log : Log}
    (room : Tolerant E ∨ Renderable E storage.bytes box.width box.height t.planes)
    (h : ((box.width * box.height * t.planes : Nat) : Int) ≤ Coordinate.greatest →
      t.Paints E pixel box) :
    Yields (Failure.Tolerated E) (t.region storage box) log fun image _ =>
      image.Displays box.width box.height t.planes
        fun x y p => pixel (box.x + x) (box.y + y) p :=
  Image.render_yields room fun addressable handle sound whole log =>
    h addressable handle sound ⟨whole.cols_eq, whole.rows_eq, whole.planes_eq⟩ _ log

end Tiler

end ImageViews
