import ImageViews.Pixel.Standard
import ImageViews.Proofs.Dropping
import ImageViews.Proofs.Eager
import ImageViews.Proofs.Planes

/-!
# Masks of filtered images

A filter gives a valid pixel exactly where all pixels of the window are valid, whatever the
coefficients and however the sum is formed. Outside the image a window meets the pixel that the
border maps to, and an invalid one where the border has none.
-/
namespace ImageViews

variable {A : Arithmetic} {p : A.Pixel} {k : A.Coeff} {q : A.Pixel} {h : A.product p k = some q}
  {α : Type}

/-- The computation gives a valid pixel. -/
def Masked.Given (c : Check (Masked α)) : Prop := ∃ m, c = .ok m ∧ m.valid = true

theorem Masked.given_iff {c : Check (Masked α)} {m : Masked α} (ok : c = .ok m) :
    Given c ↔ m.valid = true := by
  constructor
  · rintro ⟨_, ok', valid⟩
    obtain rfl := Except.ok.inj (ok.symm.trans ok')
    exact valid
  · exact fun valid => ⟨m, ok, valid⟩

section Sums

open Masked

theorem scale_valid {m : Masked (A.Value p)} {coeff : A.Factor k} {m' : Masked (A.Value q)}
    (ok : A.masked.scale h m coeff = .ok m') : m'.valid = m.valid := by
  obtain ⟨_, -, ok⟩ := Check.bind_eq_ok.1 ok
  rw [← Except.ok.inj ok]

theorem add_valid {a b m : Masked (A.Value p)} (ok : A.masked.add a b = .ok m) :
    m.valid = (a.valid && b.valid) := by
  obtain ⟨_, -, ok⟩ := Check.bind_eq_ok.1 ok
  rw [← Except.ok.inj ok]

/-- A sum over a line is valid if the sum before it and all its pixels are. -/
theorem sumLine_valid {pixel : Nat → Check (Masked (A.Value p))} {coeff : Nat → Check (A.Factor k)}
    {n i : Nat} {sum m : Masked (A.Value q)}
    (ok : sumLine (A := A.masked) h pixel coeff n i sum = .ok m) :
    m.valid = true ↔ sum.valid = true ∧ ∀ j < n, Given (pixel (i + j)) := by
  induction n generalizing i sum with
  | zero =>
    obtain rfl := Except.ok.inj ok
    simp
  | succ n ih =>
    obtain ⟨value, hvalue, ok⟩ := Check.bind_eq_ok.1 ok
    obtain ⟨factor, -, ok⟩ := Check.bind_eq_ok.1 ok
    obtain ⟨product, hproduct, ok⟩ := Check.bind_eq_ok.1 ok
    obtain ⟨total, htotal, ok⟩ := Check.bind_eq_ok.1 ok
    rw [ih ok, add_valid htotal, scale_valid hproduct, Bool.and_eq_true, ← given_iff hvalue,
      and_assoc, Nat.forall_lt_succ_left]
    simp only [Nat.add_zero, Nat.add_assoc, Nat.add_comm 1]

/-- A sum over a line meets all its pixels. -/
theorem sumLine_meets {pixel : Nat → Check (A.Value p)} {coeff : Nat → Check (A.Factor k)}
    {n i : Nat} {sum a : A.Value q} (ok : sumLine h pixel coeff n i sum = .ok a) :
    ∀ j < n, ∃ value, pixel (i + j) = .ok value := by
  induction n generalizing i sum with
  | zero => exact fun _ => nofun
  | succ n ih =>
    obtain ⟨value, hvalue, ok⟩ := Check.bind_eq_ok.1 ok
    obtain ⟨factor, -, ok⟩ := Check.bind_eq_ok.1 ok
    obtain ⟨product, -, ok⟩ := Check.bind_eq_ok.1 ok
    obtain ⟨total, -, ok⟩ := Check.bind_eq_ok.1 ok
    refine Nat.forall_lt_succ_left.2 ⟨⟨value, hvalue⟩, ?_⟩
    simpa only [Nat.add_assoc, Nat.add_comm 1] using ih ok

theorem sumWindow_valid {pixel : Nat → Nat → Check (Masked (A.Value p))}
    {coeff : Nat → Nat → Check (A.Factor k)} {cols n j : Nat} {sum m : Masked (A.Value q)}
    (ok : sumWindow (A := A.masked) h pixel coeff cols n j sum = .ok m) :
    m.valid = true ↔ sum.valid = true ∧ ∀ b < n, ∀ a < cols, Given (pixel a (j + b)) := by
  induction n generalizing j sum with
  | zero =>
    obtain rfl := Except.ok.inj ok
    simp
  | succ n ih =>
    obtain ⟨line, hline, ok⟩ := Check.bind_eq_ok.1 ok
    rw [ih ok, sumLine_valid hline, and_assoc, Nat.forall_lt_succ_left]
    simp only [Nat.zero_add, Nat.add_zero, Nat.add_assoc, Nat.add_comm 1]

theorem factorSum_valid {factor : List (A.Factor k)} {pixel : Nat → Check (Masked (A.Value p))}
    {m : Masked (A.Value q)} (ok : factorSum (A := A.masked) h factor pixel = .ok m) :
    m.valid = true ↔ ∀ j < factor.length, Given (pixel j) := by
  have all := sumLine_valid ok
  simp only [Nat.zero_add] at all
  exact all.trans (and_iff_right rfl)

theorem kernel_valid {kernel : Kernel (A.Factor k)}
    {pixel : Nat → Nat → Check (Masked (A.Value p))} {m : Masked (A.Value q)}
    (ok : kernel.sum (A := A.masked) h pixel = .ok m) :
    m.valid = true ↔ ∀ j < kernel.rows, ∀ i < kernel.cols, Given (pixel i j) := by
  have all := sumWindow_valid ok
  simp only [Nat.zero_add] at all
  exact all.trans (and_iff_right rfl)

/-- The pixels that the window of a filter at `(x, y)` meets all give valid pixels. -/
def WindowGiven (cols rows : Nat) (shift : Int × Int) (source : Int → Int → Check (Masked α))
    (x y : Int) : Prop :=
  ∀ j < rows, ∀ i < cols, Given (source (x - shift.1 + i) (y - shift.2 + j))

variable {row col : List (A.Factor k)} {shift : Int × Int}
  {source : Int → Int → Check (Masked (A.Value p))} {x y : Int} {m : Masked (A.Value q)}

theorem denseSum_valid (ok : denseSum (A := A.masked) h row col shift source x y = .ok m) :
    m.valid = true ↔ WindowGiven (max 1 row.length) (max 1 col.length) shift source x y := by
  obtain ⟨kernel, outer, ok⟩ := Check.bind_eq_ok.1 ok
  obtain ⟨cols_eq, rows_eq⟩ := Kernel.outer_extent outer
  rw [kernel_valid ok, cols_eq, rows_eq]
  rfl

/-- One pass after the other meets the same pixels as a single sum. -/
theorem twoPasses_valid (hx : row.isEmpty = true → shift.1 = 0)
    (hy : col.isEmpty = true → shift.2 = 0)
    (ok : twoPasses (A := A.masked) h row col shift source x y = .ok m) :
    m.valid = true ↔ WindowGiven (max 1 row.length) (max 1 col.length) shift source x y := by
  have length {factor : List (A.Factor k)} (some : factor.isEmpty = false) :
      max 1 factor.length = factor.length := Nat.max_eq_right (Tiler.length_pos some)
  have single {factor : List (A.Factor k)} (none : factor.isEmpty = true) :
      max 1 factor.length = 1 := by
    rw [List.isEmpty_iff.1 none]
    rfl
  unfold WindowGiven
  cases hrow : row.isEmpty <;> cases hcol : col.isEmpty
  case true.true =>
    have ok := (twoPasses_none (A := A.masked) hrow hcol).symm.trans ok
    obtain ⟨v, hv, scaled⟩ := Check.bind_eq_ok.1 ok
    rw [single hrow, single hcol, hx hrow, hy hcol, scale_valid scaled, ← given_iff hv]
    simp
  case false.true =>
    have ok := (twoPasses_row (A := A.masked) hrow hcol).symm.trans ok
    rw [length hrow, single hcol, hy hcol, factorSum_valid ok]
    simp
  case true.false =>
    have ok := (twoPasses_col (A := A.masked) hrow hcol).symm.trans ok
    rw [single hrow, length hcol, hx hrow, factorSum_valid ok]
    simp
  case false.false =>
    have ok := (twoPasses_both (A := A.masked) hrow hcol).symm.trans ok
    rw [length hrow, length hcol, factorSum_valid ok]
    refine forall₂_congr fun j hj => ?_
    obtain ⟨line, hline⟩ := sumLine_meets ok j hj
    rw [Nat.zero_add] at hline
    exact (given_iff hline).trans (factorSum_valid hline)

end Sums

/-- The image has a valid pixel at the position. -/
def Image.Trusts (image : Image (Masked α)) (x y plane : Nat) : Prop :=
  ∃ m, image.get? x y plane = some m ∧ m.valid = true

/-- Seen through the border, the image has a valid pixel at `(x, y)`: in its extent the pixel
itself, outside of it the one that the border maps to, and none with the border `zero`. -/
inductive Border.Trusts (border : Border) (image : Image (Masked α)) (plane : Nat) :
    Int → Int → Prop
  | inside {x y : Int} : image.Holds x y → image.Trusts x.toNat y.toNat plane →
    Trusts border image plane x y
  | mapped {x y : Int} {column row : Nat} : ¬image.Holds x y → border ≠ .zero →
    border.index x image.cols = .ok column → border.index y image.rows = .ok row →
    image.Trusts column row plane → Trusts border image plane x y

section Trusting

variable {image image' : Image (Masked α)} {border : Border} {access : Access} {plane : Nat}

theorem Image.given_value {x y : Int} (holds : image.Holds x y) :
    Masked.Given (image.value x y plane) ↔ image.Trusts x.toNat y.toNat plane := by
  unfold Image.value Masked.Given Image.Trusts
  rw [if_pos ⟨holds.1.1, holds.2.1⟩]
  cases image.get? x.toNat y.toNat plane <;> simp

theorem Image.Trusts.inside {x y : Nat} (h : image.Trusts x y plane) : image.Inside x y plane := by
  obtain ⟨m, found, -⟩ := h
  unfold Image.get? at found
  split at found
  next inside => exact inside
  next => cases found

theorem Image.Addressable.measurable (addressable : image.Addressable)
    (hplane : plane < image.planes) : Border.Measurable image.cols image.rows := by
  by_cases area : 0 < image.cols ∧ 0 < image.rows
  · have extents := image.extents_le area.1 area.2 (Nat.zero_lt_of_lt hplane)
    unfold Image.Addressable at addressable
    exact .inr (.inr (by omega))
  · unfold Border.Measurable
    omega

/-- What a window meets through a border is valid where the border trusts the image. -/
theorem Border.given_value (measurable : Measurable image.cols image.rows) {blank : Masked α}
    (invalid : blank.valid = false) {x y : Int} :
    Masked.Given (border.value access blank image.cols image.rows (image.value · · plane) x y) ↔
      border.Trusts image plane x y := by
  have extent : Inside .point image.cols image.rows x y ↔ image.Holds x y := by
    simp only [Inside, Access.inside, Image.Holds]
    omega
  rw [value_access measurable]
  by_cases inside : Inside .point image.cols image.rows x y
  · have holds := extent.1 inside
    rw [value_of_inside inside, Image.given_value holds]
    constructor
    · exact .inside holds
    · rintro (⟨-, trusts⟩ | ⟨outside⟩)
      · exact trusts
      · exact absurd holds outside
  have outside := mt extent.2 inside
  by_cases none : border.Blank image.cols image.rows
  · rw [value_of_blank inside none, Masked.given_iff rfl, invalid]
    refine iff_of_false Bool.false_ne_true ?_
    rintro (⟨holds, -⟩ | ⟨-, bordered, -, -, trusts⟩)
    · exact outside holds
    · have pixel := trusts.inside
      unfold Image.Inside at pixel
      exact none.elim bordered (by omega)
  · rw [value_of_mapped inside none]
    unfold Blank at none
    have fits := (measurable.resolve_left (by omega)).resolve_left (by omega)
    have shown {column row : Nat} (hcolumn : border.index x image.cols = .ok column)
        (hrow : border.index y image.rows = .ok row) :
        Masked.Given (image.value (Coordinate.ofExtent column) (Coordinate.ofExtent row) plane) ↔
          image.Trusts column row plane := by
      have column_lt := (maps_of_index hcolumn (by omega) fits.1).1
      have row_lt := (maps_of_index hrow (by omega) fits.2).1
      rw [Coordinate.ofExtent_of_le (by omega), Coordinate.ofExtent_of_le (by omega)]
      refine Image.given_value ?_
      unfold Image.Holds
      omega
    constructor
    · rintro ⟨m, ok, valid⟩
      obtain ⟨column, hcolumn, ok⟩ := Check.bind_eq_ok.1 ok
      obtain ⟨row, hrow, ok⟩ := Check.bind_eq_ok.1 ok
      exact .mapped outside (mt Or.inl none) hcolumn hrow ((shown hcolumn hrow).1 ⟨m, ok, valid⟩)
    · rintro (⟨holds, -⟩ | ⟨-, -, hcolumn, hrow, trusts⟩)
      · exact absurd holds outside
      · rw [hcolumn, hrow]
        exact (shown hcolumn hrow).2 trusts

theorem Border.trusts_channel (h : image.channel plane = .ok image') {x y : Int} :
    border.Trusts image' 0 x y ↔ border.Trusts image plane x y := by
  obtain ⟨⟨cols, rows⟩, -, pixels⟩ := Image.channel_pixels h
  have holds : image'.Holds x y ↔ image.Holds x y := by
    unfold Image.Holds
    rw [cols, rows]
  have trusts {x y : Nat} : image'.Trusts x y 0 ↔ image.Trusts x y plane := by
    unfold Image.Trusts
    rw [pixels]
  constructor
  · rintro (⟨inside, pixel⟩ | ⟨outside, bordered, column, row, pixel⟩)
    · exact .inside (holds.1 inside) (trusts.1 pixel)
    · exact .mapped (mt holds.2 outside) bordered (cols ▸ column) (rows ▸ row) (trusts.1 pixel)
  · rintro (⟨inside, pixel⟩ | ⟨outside, bordered, column, row, pixel⟩)
    · exact .inside (holds.2 inside) (trusts.2 pixel)
    · exact .mapped (mt holds.1 outside) bordered (cols ▸ column) (rows ▸ row) (trusts.2 pixel)

end Trusting

/-- Every pixel in the window of a filter at `(x, y)` is trusted. -/
def Border.TrustsWindow (border : Border) (image : Image (Masked α)) {cols rows : Nat}
    (anchor : Anchor cols rows) (x y : Int) (plane : Nat) : Prop :=
  ∀ j < rows, ∀ i < cols,
    border.Trusts image plane (x - anchor.before.1 + i) (y - anchor.before.2 + j)

theorem Border.given_window {border : Border} {image : Image (Masked α)} {cols rows : Nat}
    {anchor : Anchor cols rows} {blank : Masked α} {x y : Int} {plane : Nat} (access : Access)
    (measurable : Measurable image.cols image.rows) (invalid : blank.valid = false)
    (hcols : (cols : Int) ≤ Coordinate.greatest) (hrows : (rows : Int) ≤ Coordinate.greatest) :
    WindowGiven cols rows anchor.shift
        (border.value access blank image.cols image.rows (image.value · · plane)) x y ↔
      border.TrustsWindow image anchor x y plane := by
  have col := anchor.col_lt
  have row := anchor.row_lt
  have shift : anchor.shift = (↑anchor.before.1, ↑anchor.before.2) := by
    unfold Anchor.shift Anchor.before
    rw [Coordinate.ofExtent_of_le (by omega), Coordinate.ofExtent_of_le (by omega)]
  unfold WindowGiven TrustsWindow
  rw [shift]
  exact forall₂_congr fun _ _ => forall₂_congr fun _ _ => given_value measurable invalid

namespace View

/-- The pixels that a view gives are valid exactly where `Valid` says so, whether they are asked for
one by one or as a box. -/
structure ValidWhere (v : View A.masked q) (Valid : Int → Int → Nat → Prop) : Prop where
  get : ∀ {x y : Int} {plane : Nat}, plane < v.planes → plane < Extent.modulus →
    ∀ {trail trail' : Trail v.Memo} {m : Masked (A.Value q)}, v.Keeps trail →
      (v.get x y plane).run.run trail = (.ok m, trail') → (m.valid = true ↔ Valid x y plane)
  rasterize : ∀ {n : Nat} {handle : Handle n} {box : Box}, handle.Sound →
    handle.Takes box v.planes → ∀ {cells painted : Vector (Masked (A.Value q)) n} {log log' : Log},
      (v.rasterize handle box).run.run (cells, log) = (.ok (), painted, log') →
      ∀ {x y plane : Nat}, handle.Inside x y plane →
        ∃ m, handle.get painted x y plane = .ok m ∧
          (m.valid = true ↔ Valid (box.x + x) (box.y + y) plane)

namespace Stage

/-- The border through which the child is read. -/
def border : {p q : A.Pixel} → Stage A p q → Border
  | _, _, extend border | _, _, convolve _ _ _ border | _, _, separable _ _ _ _ border => border

/-- The extent of the window that is read for a pixel. -/
def window : {p q : A.Pixel} → Stage A p q → Nat × Nat
  | _, _, extend _ => (1, 1)
  | _, _, convolve _ kernel _ _ => (kernel.cols, kernel.rows)
  | _, _, separable _ row col _ _ => (max 1 row.length, max 1 col.length)

/-- The place of the pixel in its window. -/
def anchor : {p q : A.Pixel} → (stage : Stage A p q) → Anchor stage.window.1 stage.window.2
  | _, _, extend _ => { col := 0, row := 0, col_lt := Nat.one_pos, row_lt := Nat.one_pos }
  | _, _, convolve _ _ anchor _ | _, _, separable _ _ _ anchor _ => anchor

theorem channel_image {p : A.Pixel} {pixels pixels' : Image (A.Value p)} {provenance : Provenance}
    {plane : Nat} (ok : pixels.channel plane = .ok pixels') :
    (View.image pixels provenance).channel plane = some (.image pixels' provenance) := by
  simp only [View.channel, ok]

theorem toView_regular {p q : A.Pixel} (stage : Stage A p q) {child : View A p}
    (regular : child.Regular) : (stage.toView child).Regular := by
  cases stage with
  | extend | convolve | separable => exact regular

theorem toView_channel {p q : A.Pixel} (stage : Stage A p q) {child child' : View A p} {plane : Nat}
    (channel : child.channel plane = some child') :
    (stage.toView child).channel plane = some (stage.toView child') := by
  cases stage with
  | extend | convolve | separable => simp only [toView, View.channel, channel]; rfl

variable {p q : A.masked.Pixel} (stage : Stage A.masked p q) {pixels : Image (Masked (A.Value p))}
  {provenance : Provenance} {access : Access} {x y : Int} {plane : Nat} {m : Masked (A.Value q)}

theorem image_planes : (stage.toView (.image pixels provenance)).planes = pixels.planes :=
  (stage.toView_extent _).2.2

/-- The value of a pixel is valid where all of its window is trusted. -/
theorem value_valid (formed : (stage.toView (.image pixels provenance)).WellFormed)
    (measurable : Border.Measurable pixels.cols pixels.rows)
    (ok : (stage.toView (.image pixels provenance)).value access x y plane = .ok m) :
    m.valid = true ↔ stage.border.TrustsWindow pixels stage.anchor x y plane := by
  cases stage with
  | extend border =>
    refine (Masked.given_iff ok).symm.trans ((Border.given_value measurable rfl).trans ?_)
    simp [Border.TrustsWindow, Stage.border, Stage.anchor, Stage.window, Anchor.before]
  | convolve h kernel anchor border =>
    obtain ⟨hcols, hrows⟩ := formed.2.extents_le
    have sum := kernel_valid (A := A) (h := h) ok
    exact sum.trans (Border.given_window access measurable rfl hcols hrows)
  | separable h row col anchor border =>
    obtain ⟨-, hrow, hcol⟩ := formed
    have extents : ((max 1 row.length : Nat) : Int) ≤ Coordinate.greatest ∧
        ((max 1 col.length : Nat) : Int) ≤ Coordinate.greatest := by
      unfold Coordinate.greatest at *
      omega
    cases access with
    | point =>
      have sum := denseSum_valid (A := A) (h := h) ok
      exact sum.trans (Border.given_window .point measurable rfl extents.1 extents.2)
    | box =>
      have sum := twoPasses_valid (A := A) (h := h) Anchor.shift_of_empty_row
        Anchor.shift_of_empty_col ok
      exact sum.trans (Border.given_window .box measurable rfl extents.1 extents.2)

/-- A pixel of one plane, which need not be a plane that a signed word can number. -/
theorem get_valid (formed : (stage.toView (.image pixels provenance)).WellFormed)
    (hplane : plane < (stage.toView (.image pixels provenance)).planes)
    (word : plane < Extent.modulus)
    {trail trail' : Trail (stage.toView (.image pixels provenance)).Memo}
    (keeps : (stage.toView (.image pixels provenance)).Keeps trail)
    (run : ((stage.toView (.image pixels provenance)).get x y plane).run.run trail =
      (.ok m, trail')) :
    m.valid = true ↔ stage.border.TrustsWindow pixels stage.anchor x y plane := by
  have regular : (stage.toView (.image pixels provenance)).Regular :=
    stage.toView_regular (stage.child_formed formed)
  obtain ⟨single, channel, single_planes, inStep⟩ := regular.channel_inStep hplane
  obtain ⟨pixels', ok⟩ : ∃ pixels', pixels.channel plane = .ok pixels' :=
    ⟨_, Image.channel_of_lt (stage.image_planes ▸ hplane)⟩
  obtain rfl := Option.some.inj
    ((stage.toView_channel (channel_image (A := A.masked) ok)).symm.trans channel)
  have framed : (stage.toView (.image pixels provenance)).Framed {} :=
    regular.framed (.inl stage.toView_everywhere)
  obtain ⟨_, run'⟩ := (inStep.isPlane single_planes framed).get word keeps run (keeps_empty _)
  obtain ⟨-, size, -⟩ := Image.channel_pixels ok
  have addressable : pixels'.Addressable :=
    Int.le_trans (Int.ofNat_le.2 size) (stage.child_formed formed)
  have formed' : (stage.toView (.image pixels' provenance)).WellFormed :=
    stage.toView_formed formed addressable
  have one : pixels'.planes = 1 := stage.image_planes.symm.trans single_planes
  have value := value_of_get formed'.sound (stage.toView_everywhere.holds x y)
    (by rw [single_planes]; decide) (by decide) (keeps_empty _) run'
  have pixel : 0 < pixels'.planes := by omega
  have valid := stage.value_valid formed' (addressable.measurable pixel) value
  exact valid.trans (forall₂_congr fun _ _ => forall₂_congr fun _ _ => Border.trusts_channel ok)

/-- Both ways to ask a stage over an image for pixels. -/
theorem validWhere (formed : (stage.toView (.image pixels provenance)).WellFormed) :
    (stage.toView (.image pixels provenance)).ValidWhere
      (stage.border.TrustsWindow pixels stage.anchor) where
  get hplane word _ _ _ keeps run := stage.get_valid formed hplane word keeps run
  rasterize {n handle box} sound takes {cells painted log log'} run {x y plane} inside := by
    have everywhere : (stage.toView (.image pixels provenance)).Everywhere :=
      stage.toView_everywhere
    have covers : (stage.toView (.image pixels provenance)).Covers box :=
      formed.covers_of_inside (.inl everywhere)
    obtain ⟨m, got, value⟩ := get_of_rasterize formed.sound covers sound takes run inside
    have hplane : plane < pixels.planes := stage.image_planes ▸ (takes.has inside).2
    have addressable : pixels.Addressable := stage.child_formed formed
    exact ⟨m, got, stage.value_valid formed (addressable.measurable hplane) value⟩

end Stage

/-- Dropping the mask of values without a flag of their own commutes with every evaluation of a
view. What reads an image through a border gives a valid pixel exactly where each pixel that its
window meets is valid: a pixel of the image, or the one that the border maps to, and none outside
of an image without pixels or with the border `zero`. -/
theorem masks_poison_windows :
    (A.Unflagged → ∀ {p : A.masked.Pixel} (v : View A.masked p), v.DropsMask) ∧
      ∀ {p q : A.masked.Pixel} (stage : Stage A.masked p q) (pixels : Image (Masked (A.Value p)))
        (provenance : Provenance), (stage.toView (.image pixels provenance)).WellFormed →
        (stage.toView (.image pixels provenance)).ValidWhere
          (stage.border.TrustsWindow pixels stage.anchor) :=
  ⟨fun unflagged _ v => v.dropsMask unflagged, fun stage _ _ formed => stage.validWhere formed⟩

section Examples

/-- Three pixels, the middle one invalid. -/
def blemished : Image (Masked UInt8) where
  cols := 3
  rows := 1
  planes := 1
  cells := #[.trusted 1, .invalid 2, .trusted 3]
  size_cells := rfl

/-- A factor for the rows that keeps each pixel as it is, with a coefficient of zero for the pixel
before. -/
def zeroTap : Stage Arithmetic.standard.masked PixelKind.u8 PixelKind.i32 :=
  .separable (A := Arithmetic.standard.masked) (p := PixelKind.u8) (k := CoeffKind.i32) rfl
    ([1, 0] : List Int32) ([] : List Int32)
    { col := 0, row := 0, col_lt := by decide, row_lt := by decide } .reflect

/-- The pixels kept as they are. -/
def tapped : View Arithmetic.standard.masked PixelKind.i32 :=
  zeroTap.toView (.image (A := Arithmetic.standard.masked) (p := PixelKind.u8) blemished .given)

/-- The last pixel is behind the invalid one and becomes invalid, the first one stays valid. -/
theorem zeroTap_spreads_blemish :
    (∃ painted log log', (tapped.rasterize (.row 3) { width := 3, height := 1 }).run.run
          (Vector.replicate 3 (Masked.invalid (0 : Int32)), []) = (.ok (), painted, log) ∧
        (tapped.unmasked.rasterize (.row 3) { width := 3, height := 1 }).run.run
          ((Vector.replicate 3 (Masked.invalid (0 : Int32))).map Masked.value, []) =
            (.ok (), painted.map Masked.value, log') ∧
        ∃ m : Masked Int32, (Handle.row 3).get painted 2 0 0 = .ok m ∧ m.valid = false) ∧
      ∃ (m : Masked Int32) (trail : Trail tapped.Memo),
        (tapped.get 0 0 0).run.run { memo := Memo.empty tapped } = (.ok m, trail) ∧
          m.valid = true := by
  have formed : tapped.WellFormed :=
    ⟨show ((3 : Nat) : Int) ≤ Coordinate.greatest by decide, by decide, by decide⟩
  obtain ⟨drops, stages⟩ := masks_poison_windows (A := .standard)
  have valid := stages zeroTap blemished .given formed
  constructor
  · have rasterized : ((tapped.rasterize (.row 3) { width := 3, height := 1 }).run.run
        (Vector.replicate 3 (Masked.invalid (0 : Int32)), [])).1.isOk := by
      decide +kernel
    obtain ⟨_, ⟨painted, log⟩, run, -⟩ := exists_of_isOk rasterized
    obtain ⟨log', run'⟩ := (drops Arithmetic.standard_unflagged tapped).rasterize run []
    have inside : (Handle.row 3).Inside 2 0 0 := ⟨by decide, by decide, by decide⟩
    obtain ⟨m, got, trusted⟩ := valid.rasterize (Handle.row_sound (by decide)) ⟨rfl, rfl, rfl⟩ run
      inside
    refine ⟨painted, log, log', run, run', m, got, Bool.eq_false_iff.2 (mt trusted.1 ?_)⟩
    intro window
    rcases window 0 (by decide) 0 (by decide) with ⟨-, _, found, trust⟩ | ⟨outside, -⟩
    · have middle : blemished.get? 1 0 0 = some (.invalid 2) := rfl
      obtain rfl := Option.some.inj (middle.symm.trans found)
      cases trust
    · exact outside ⟨⟨by decide, by decide⟩, by decide, by decide⟩
  · have shown : ((tapped.get 0 0 0).run.run { memo := Memo.empty tapped }).1.isOk := by
      decide +kernel
    obtain ⟨m, trail, run, -⟩ := exists_of_isOk shown
    refine ⟨m, trail, run, (valid.get (by decide) (by decide) (keeps_empty _) run).2 ?_⟩
    have first : blemished.Trusts 0 0 0 := ⟨.trusted 1, rfl, rfl⟩
    intro j hj i hi
    obtain rfl := Nat.lt_one_iff.1 hj
    rcases Nat.le_one_iff_eq_zero_or_eq_one.1 (Nat.le_of_lt_succ hi) with rfl | rfl
    · exact .mapped (fun holds => absurd holds.1.1 (by decide)) nofun rfl rfl first
    · exact .inside ⟨⟨by decide, by decide⟩, by decide, by decide⟩ first

end Examples

end View

end ImageViews
