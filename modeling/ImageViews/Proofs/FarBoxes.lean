import ImageViews.Proofs.Calm
import ImageViews.Proofs.Tables
import ImageViews.Proofs.Transposition

/-!
# Boxes at the ends of the words

A box may start at the least coordinate or end at the greatest one, inside an extent, across its
edges or far away from it. If twice the extent can be measured and the box itself has words for its
corners, its image shows what the border gives pixel by pixel, and nothing overflows on the way.
Only room for an image or a list of indices may be lacking.
-/
namespace ImageViews

variable {α σ : Type} {E : Fault → Prop}

/-- Twice the extent, and twice the number of its cells, are coordinates. -/
structure Halved (cols rows planes : Nat) : Prop where
  cols_le : cols ≤ half
  rows_le : rows ≤ half
  cells_le : cols * rows * max 1 planes ≤ half

instance (cols rows planes : Nat) : Decidable (Halved cols rows planes) :=
  decidable_of_iff (cols ≤ half ∧ rows ≤ half ∧ cols * rows * max 1 planes ≤ half)
    ⟨fun ⟨cols, rows, cells⟩ => ⟨cols, rows, cells⟩, fun ⟨cols, rows, cells⟩ => ⟨cols, rows, cells⟩⟩

/-- The corners and the number of cells of the box are coordinates. -/
structure Box.Measured (planes : Nat) (box : Box) : Prop where
  lengths : (box.width : Int) ≤ Coordinate.greatest ∧ (box.height : Int) ≤ Coordinate.greatest
  columns : Coordinate.Fits box.x ∧ Coordinate.Fits (box.x + box.width)
  lines : Coordinate.Fits box.y ∧ Coordinate.Fits (box.y + box.height)
  cells : ((box.width * box.height * max 1 planes : Nat) : Int) ≤ Coordinate.greatest

instance (planes : Nat) (box : Box) : Decidable (box.Measured planes) :=
  decidable_of_iff (((box.width : Int) ≤ Coordinate.greatest ∧
      (box.height : Int) ≤ Coordinate.greatest) ∧
    (Coordinate.Fits box.x ∧ Coordinate.Fits (box.x + box.width)) ∧
    (Coordinate.Fits box.y ∧ Coordinate.Fits (box.y + box.height)) ∧
    ((box.width * box.height * max 1 planes : Nat) : Int) ≤ Coordinate.greatest)
    ⟨fun ⟨lengths, columns, lines, cells⟩ => { lengths, columns, lines, cells },
      fun h => ⟨h.lengths, h.columns, h.lines, h.cells⟩⟩

/-- The boxes of `t` inside its extent show the pixels that `s` gives there. -/
structure Agrees (I : σ → Prop) (s : Sampler σ α) (t : Tiler α)
    (pixel : Int → Int → Nat → Check α) : Prop where
  cols_eq : s.cols = t.cols
  rows_eq : s.rows = t.rows
  get : ∀ {x y : Int} {p : Nat}, t.bounds.Has x y → p < t.planes → ∀ st, I st →
    Yields Strict (s.get x y p) st fun a st' => I st' ∧ pixel x y p = .ok a
  paints : ∀ box : Box, ¬box.IsEmpty → box.Within t.bounds → t.Paints Strict pixel box

namespace Halved

variable {cols rows planes : Nat}

/-- Where there are pixels, the products of the extents are at most half of a coordinate as well. -/
theorem compact (h : Halved cols rows planes) (hcols : 0 < cols) (hrows : 0 < rows) :
    Compact cols rows planes := by
  have cells := h.cells_le
  have planes_le : cols * rows * planes ≤ cols * rows * max 1 planes :=
    Nat.mul_le_mul_left _ (by omega)
  have pixels : cols * rows ≤ cols * rows * max 1 planes := Nat.le_mul_of_pos_right _ (by omega)
  have line : cols * planes ≤ cols * rows * planes :=
    Nat.mul_le_mul_right _ (Nat.le_mul_of_pos_right _ hrows)
  have column : rows * planes ≤ cols * rows * planes :=
    Nat.mul_le_mul_right _ (Nat.le_mul_of_pos_left _ hcols)
  constructor <;> omega

end Halved

namespace Image

variable {image : Image α} {x y : Int} {box : Box}

/-- A walk over a box inside the image stays before the end of one more line. -/
theorem placed_le {cols rows planes x y p x0 y0 width height : Nat}
    (h : Compact cols rows planes) (right : x0 + width ≤ cols) (bottom : y0 + height ≤ rows)
    (hwidth : 0 < width) (passes : Handle.Passes width height planes x y p) :
    (x0 + x) * planes + (y0 + y) * (cols * planes) + p ≤ half + half := by
  have line := h.line
  have cells := h.cells
  rw [Nat.mul_comm cols, Nat.mul_assoc] at cells
  have column (hx : x0 + x ≤ cols) : (x0 + x) * planes ≤ cols * planes :=
    Nat.mul_le_mul_right _ hx
  have row (hy : y0 + y ≤ rows) : (y0 + y) * (cols * planes) ≤ rows * (cols * planes) :=
    Nat.mul_le_mul_right _ hy
  rcases passes with ⟨hy, ⟨hx, hp⟩ | ⟨hx, rfl⟩⟩ | ⟨hy, rfl, rfl⟩
  · have pixel : (x0 + x + 1) * planes ≤ cols * planes := Nat.mul_le_mul_right _ (by omega)
    have := row (by omega)
    rw [Nat.succ_mul] at pixel
    omega
  · have := column (by omega)
    have := row (by omega)
    omega
  · have := column (by omega)
    have := row (by omega)
    omega

theorem addressable_of_halved (h : Halved image.cols image.rows image.planes) :
    image.Addressable := by
  have cells := h.cells_le
  have planes_le : image.cols * image.rows * image.planes ≤
      image.cols * image.rows * max 1 image.planes := Nat.mul_le_mul_left _ (by omega)
  unfold half at cells
  unfold Addressable Coordinate.greatest
  rw [image.size_cells]
  omega

theorem agrees (image : Image α) (h : Halved image.cols image.rows image.planes) :
    Agrees (fun _ : σ => True) (.image image) (.image image) image.value where
  cols_eq := rfl
  rows_eq := rfl
  get {x y p} has hp st hst := by
    have holds : image.Holds x y := by
      simpa [Tiler.bounds, Tiler.image, Box.ofExtent, Box.Has, Holds] using has
    exact (image.shows (addressable_of_halved h) holds hp).get (image.value_tolerable holds hp) st
      hst
  paints box nonempty within := by
    obtain ⟨x0, y0, width, height⟩ := box
    simp only [Box.IsEmpty, Box.Within, Tiler.bounds, Tiler.image, Box.ofExtent] at nonempty within
    obtain ⟨x0, rfl⟩ := Int.eq_ofNat_of_zero_le within.1.1
    obtain ⟨y0, rfl⟩ := Int.eq_ofNat_of_zero_le within.2.1
    have compact := h.compact (by omega) (by omega)
    refine Tiler.image_paints_of_passes (addressable_of_halved h) (fun _ x y has => ?_) ?_ ?_
    · simp only [Box.Has] at has
      unfold Holds
      omega
    · rw [strided_eq compact]
      exact .ok _
    rintro grid hgrid x y p passes
    obtain rfl := Except.ok.inj ((strided_eq compact).symm.trans hgrid)
    have line := compact.line
    have depth : image.planes ≤ image.cols * image.planes :=
      Nat.le_mul_of_pos_left _ (by omega)
    unfold half at line
    have right : x0 + width ≤ image.cols := by omega
    have bottom : y0 + height ≤ image.rows := by omega
    have le := placed_le compact right bottom (by omega) passes
    refine admits_of_terms ?_ ?_ le
    · simp [grid, Coordinate.ofExtent_of_lt (n := image.planes) (by omega)]
    · simp [grid, Coordinate.ofExtent_of_lt (n := image.cols * image.planes) (by omega)]

/-- The image has the extent of a box and shows what a border around a sampler gives there. -/
structure Extends (image : Image α) (I : σ → Prop) (s : Sampler σ α) (border : Border) (blank : α)
    (box : Box) (planes : Nat) : Prop where
  cols_eq : image.cols = box.width
  rows_eq : image.rows = box.height
  planes_eq : image.planes = planes
  pixel : ∀ {x y p : Nat}, x < box.width → y < box.height → p < planes →
    ∃ a, image.get? x y p = some a ∧ ∀ st, I st →
      ((border.pixel s blank (box.x + x) (box.y + y) p).run.run st).1 = .ok a

end Image

namespace Tiler

variable {t : Tiler α} {s : Sampler σ α} {I : σ → Prop} {pixel : Int → Int → Nat → Check α}
  {border : Border} {storage : Storage α} {box : Box} {log : Log}

/-- There is room for the image of the box and, if its pixels are gathered, for the indices of its
columns and rows and for the image of the box that holds them. -/
structure Reserves (t : Tiler α) (border : Border) (storage : Storage α) (box : Box) : Prop where
  image : Allocates storage.bytes (box.width * box.height * t.planes)
  indices : t.Gathers border box →
    Allocates indexBytes box.width ∧ Allocates indexBytes box.height
  source : t.Gathers border box → ∀ (xs : Vector Nat box.width) (ys : Vector Nat box.height),
    Indexes border box.x t.cols xs → Indexes border box.y t.rows ys →
    Allocates storage.bytes ((between (span xs.toList) (span ys.toList)).width *
      (between (span xs.toList) (span ys.toList)).height * t.planes)

/-- The box with the indices is not larger than the extent. -/
theorem Gathers.hull_le (gathers : t.Gathers border box) (halved : Halved t.cols t.rows t.planes)
    {xs : Vector Nat box.width} {ys : Vector Nat box.height}
    (hxs : Indexes border box.x t.cols xs) (hys : Indexes border box.y t.rows ys) :
    0 < (between (span xs.toList) (span ys.toList)).height ∧
      (between (span xs.toList) (span ys.toList)).width ≤ t.cols ∧
      (between (span xs.toList) (span ys.toList)).height ≤ t.rows := by
  have measured {len : Nat} (h : len ≤ half) : (len : Int) ≤ Coordinate.greatest := by
    unfold half at h
    unfold Coordinate.greatest
    omega
  obtain ⟨nonempty, within⟩ :=
    gathers.hull (measured halved.cols_le) (measured halved.rows_le) hxs hys
  simp only [Box.IsEmpty, Box.Within, bounds, Box.ofExtent] at nonempty within
  omega

/-- Room for all pixels of the extent is room for those that are gathered. -/
theorem Reserves.of_extent (halved : Halved t.cols t.rows t.planes)
    (image : Allocates storage.bytes (box.width * box.height * t.planes))
    (indices : Allocates indexBytes box.width ∧ Allocates indexBytes box.height)
    (extent : Allocates storage.bytes (t.cols * t.rows * t.planes)) :
    t.Reserves border storage box where
  image := image
  indices _ := indices
  source gathers xs ys hxs hys := by
    obtain ⟨-, width, height⟩ := gathers.hull_le halved hxs hys
    have cells : storage.bytes * ((between (span xs.toList) (span ys.toList)).width *
        (between (span xs.toList) (span ys.toList)).height * t.planes) ≤
          storage.bytes * (t.cols * t.rows * t.planes) :=
      Nat.mul_le_mul_left _ (Nat.mul_le_mul_right _ (Nat.mul_le_mul width height))
    unfold Allocates at *
    omega

theorem renderable_of_cells {bytes cols rows planes : Nat} (hrows : 0 < rows)
    (cells : cols * rows * max 1 planes < Extent.modulus)
    (room : E .capacity ∨ Allocates bytes (cols * rows * planes)) :
    Renderable E bytes cols rows planes where
  pixels_lt := Nat.lt_of_le_of_lt (Nat.le_mul_of_pos_right _ (by omega)) cells
  cells_lt := Nat.lt_of_le_of_lt (Nat.mul_le_mul_left _ (by omega)) cells
  bytes_le := room
  line_lt := by
    have line : cols * planes ≤ cols * rows * max 1 planes :=
      Nat.mul_le_mul (Nat.le_mul_of_pos_right _ hrows) (by omega)
    omega

/-- Nothing overflows on the way to the image of a box. -/
theorem extendable_of_measured (halved : Halved t.cols t.rows t.planes)
    (measured : box.Measured t.planes) (room : E .capacity ∨ t.Reserves border storage box) :
    Extendable E t border storage box where
  extent := by
    have := halved.cols_le
    have := halved.rows_le
    unfold half at *
    unfold Coordinate.greatest
    omega
  lengths := measured.lengths
  columns := measured.columns
  lines := measured.lines
  image nonempty := by
    have cells := measured.cells
    unfold Coordinate.greatest at cells
    unfold Box.IsEmpty at nonempty
    refine renderable_of_cells (by omega) ?_ (room.imp_right (·.image))
    unfold Extent.modulus
    omega
  indices gathers := room.imp_right fun reserves => reserves.indices gathers
  source gathers xs ys hxs hys := by
    obtain ⟨pos, width, height⟩ := gathers.hull_le halved hxs hys
    refine renderable_of_cells pos ?_ (room.imp_right fun reserves =>
      reserves.source gathers xs ys hxs hys)
    exact Nat.lt_of_le_of_lt (Nat.mul_le_mul_right _ (Nat.mul_le_mul width height))
      (Nat.lt_of_le_of_lt halved.cells_le half_lt)

/-- The border gives the pixels of the extended tiler one by one. -/
theorem borderPixel_eq (agrees : Agrees I s t pixel)
    (hcols : (t.cols : Int) ≤ Coordinate.greatest) (hrows : (t.rows : Int) ≤ Coordinate.greatest)
    {blank a : α} {x y : Int} {p : Nat} (hp : p < t.planes)
    (value : t.bordered border blank pixel x y p = .ok a) {st : σ} (hst : I st) :
    ((border.pixel s blank x y p).run.run st).1 = .ok a := by
  have value' : border.value .point blank s.cols s.rows (pixel · · p) x y = .ok a := by
    rw [agrees.cols_eq, agrees.rows_eq, ← Border.value_access (.inr (.inr ⟨hcols, hrows⟩))]
    exact value
  have tolerable :
      (border.value .point blank s.cols s.rows (pixel · · p) x y).Tolerable Strict := by
    rw [value']
    exact .ok a
  have got (u v : Int) (reads : border.Reads .point s.cols s.rows x y u v)
      (_ : (pixel u v p).Tolerable Strict) (st : σ) (hst : I st) :
      Yields Strict (s.get u v p) st fun a st' => I st' ∧ pixel u v p = .ok a := by
    rw [agrees.cols_eq, agrees.rows_eq] at reads
    exact agrees.get (reads.has hcols hrows) hp st hst
  obtain ⟨b, st', run, -, same⟩ :=
    (Sampler.borderPixel_yields got tolerable hst).succeeds fun _ => id
  rw [run, ← value', same]

/-- Where nothing overflows the image shows what the border gives. -/
theorem extend_extends (agrees : Agrees I s t pixel) (overflow : ¬E .overflow)
    (extendable : Extendable E t border storage box) :
    Yields (Failure.Tolerated E) (t.extend border storage box) log fun image _ =>
      image.Extends I s border storage.blank box t.planes := by
  have fills : 0 < t.planes → 0 < t.cols → 0 < t.rows → Fills t.cols t.rows fun _ _ => True := by
    have := extendable.extent_le
    unfold Coordinate.greatest at this
    refine fun _ _ _ => ⟨?_, .inl fun _ _ => trivial⟩
    unfold Extent.modulus
    omega
  apply (extend_yields (.inr extendable) fills fun box' _ room => ?_).mono
  · intro image _ displays
    refine ⟨displays.cols_eq, displays.rows_eq, displays.planes_eq, fun {x y p} hx hy hp => ?_⟩
    obtain ⟨a, value⟩ := displays.value_ok hx hy hp
    refine ⟨a, ?_, fun st hst => ?_⟩
    · rw [← Image.value_eq_get?, displays.value_eq hx hy hp, value]
    · obtain ⟨cols_le, rows_le⟩ := extendable.extent_le
      exact borderPixel_eq agrees cols_le rows_le hp value hst
  · obtain ⟨nonempty, within⟩ := room.resolve_left fun tolerant => overflow (tolerant _)
    intro n handle hs takes cells log
    exact (agrees.paints box' nonempty within handle hs takes cells log).weaken
      fun cause strict => (Failure.not_tolerated cause strict).elim

/-- Lacking room is tolerated. -/
def Crowded (fault : Fault) : Prop := fault = .capacity

/-- For every sampler whose boxes agree with its pixels, an image for one, twice the extent of which
can be measured, and for every border and every box with words for its corners: the image of the box
has its extent and shows, pixel by pixel, what the border gives. It is there if there is room for
it and for what it is gathered from, and otherwise the only fault is the lack of room. -/
theorem extends_everywhere (storage : Storage α) (border : Border) :
    (∀ image : Image α, Halved image.cols image.rows image.planes →
      Agrees (fun _ : σ => True) (.image image) (.image image) image.value) ∧
    ∀ (I : σ → Prop) (s : Sampler σ α) (t : Tiler α) (pixel : Int → Int → Nat → Check α),
      Agrees I s t pixel → Halved t.cols t.rows t.planes → ∀ box : Box, box.Measured t.planes →
      ∀ log,
        (t.Reserves border storage box →
          ∃ image log', (t.extend border storage box).run.run log = (.ok image, log') ∧
            image.Extends I s border storage.blank box t.planes) ∧
        ((∃ image log', (t.extend border storage box).run.run log = (.ok image, log') ∧
            image.Extends I s border storage.blank box t.planes) ∨
          ∃ log', (t.extend border storage box).run.run log =
            (.error (.fault .capacity), log')) := by
  refine ⟨Image.agrees, fun I s t pixel agrees halved box measured log => ⟨fun reserves => ?_, ?_⟩⟩
  · have extendable := extendable_of_measured (E := Strict) halved measured (.inr reserves)
    exact (extend_extends agrees id extendable).succeeds Failure.not_tolerated
  · have extendable : Extendable Crowded t border storage box :=
      extendable_of_measured halved measured (.inl rfl)
    have outcome : Yields (Failure.Tolerated Crowded) (t.extend border storage box) log
        fun image _ => image.Extends I s border storage.blank box t.planes :=
      extend_extends agrees (by simp [Crowded]) extendable
    unfold Yields at outcome
    rcases run : (t.extend border storage box).run.run log with ⟨cause | image, log'⟩ <;>
      rw [run] at outcome
    · refine .inr ⟨log', ?_⟩
      cases cause with
      | error refused => exact outcome.elim
      | fault fault =>
        obtain rfl : fault = .capacity := outcome
        rfl
    · exact .inl ⟨image, log', rfl, outcome⟩

section Examples

def byteStorage : Storage UInt8 := Arithmetic.storage .standard PixelKind.u8

/-- Two pixels side by side. -/
def sideBySide : Image UInt8 :=
  { cols := 2, rows := 1, planes := 1, cells := #[1, 2], size_cells := by decide }

/-- Three pixels from the least coordinate on. -/
def leastColumns : Box := { x := Coordinate.least, width := 3, height := 1 }

theorem sideBySide_extends : Halved 2 1 1 ∧ leastColumns.Measured 1 ∧
    (Tiler.image sideBySide).Reserves .wrap byteStorage leastColumns ∧
    ∃ image log', ((Tiler.image sideBySide).extend .wrap byteStorage leastColumns).run.run [] =
        (.ok image, log') ∧ image.cols = 3 ∧ image.get? 1 0 0 = some (2 : UInt8) := by
  have halved : Halved 2 1 1 := by decide
  have measured : leastColumns.Measured 1 := by decide
  have reserves : (Tiler.image sideBySide).Reserves .wrap byteStorage leastColumns :=
    .of_extent halved (by decide) (by decide) (by decide)
  obtain ⟨agrees, everywhere⟩ := extends_everywhere (σ := Log) byteStorage .wrap
  obtain ⟨image, log', run, shows⟩ := (everywhere _ _ (.image sideBySide) _
    (agrees sideBySide halved) halved leastColumns measured []).1 reserves
  obtain ⟨a, entry, same⟩ := shows.pixel (by decide : 1 < 3) (by decide : 0 < 1) (by decide : 0 < 1)
  have second : (Except.ok 2 : Check UInt8) = .ok a := Eq.trans rfl (same [] trivial)
  obtain rfl := Except.ok.inj second
  exact ⟨halved, measured, reserves, image, log', run, shows.cols_eq, entry⟩

/-- A pixel without planes. -/
def noPlanes : Image UInt8 :=
  { cols := 1, rows := 1, planes := 0, cells := #[], size_cells := Array.size_empty }

/-- More columns than there is room for their indices. -/
def endlessColumns : Box := { width := 0x1000000000000000, height := 1 }

/-- An image without planes takes no room, but the list of the indices of its columns does. -/
theorem endlessColumns_crowded : Halved 1 1 0 ∧
    Agrees (fun _ : Log => True) (.image noPlanes) (.image noPlanes) noPlanes.value ∧
    endlessColumns.Measured 0 ∧
    ∀ log, ((Tiler.image noPlanes).extend .replicate byteStorage endlessColumns).run.run log =
      (.error (.fault .capacity), log) := by
  have halved : Halved 1 1 0 := by decide
  exact ⟨halved, noPlanes.agrees halved, by decide, fun _ => rfl⟩

end Examples

end Tiler

end ImageViews
