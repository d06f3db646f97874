import ImageViews.Proofs.Consistency
import ImageViews.Proofs.Requests

/-!
# Sources of extensions and filters

An extension asks its source for the smallest box with the pixels that its border reads for the
pixels of the box, and a filter for the smallest box with those read for the windows around them. A
filter that is applied in two passes asks for the same box as one with a kernel of the same extent
and the same anchor, although it measures the windows in another way.
-/
namespace ImageViews

variable {A : Arithmetic} {p : A.Pixel} {n : ℕ}

/-- The pixels of the extent that a border reads for the windows around the pixels of a box. -/
def Border.NeedsWindows {kcols krows : ℕ} (border : Border) (cols rows : ℕ)
    (anchor : Anchor kcols krows) (box : Box) (u v : ℤ) : Prop :=
  ∃ (x y : ℤ) (i j : ℕ), box.Has x y ∧ i < kcols ∧ j < krows ∧
    border.Reads .point cols rows (x - anchor.shift.1 + i) (y - anchor.shift.2 + j) u v

/-- The windows around the pixels of a box are the pixels of the box that they cover. -/
theorem Border.needs_windows {border : Border} {cols rows kcols krows : ℕ}
    {anchor : Anchor kcols krows} {box : Box} (nonempty : ¬box.IsEmpty) :
    border.Needs cols rows (box.windows anchor) = border.NeedsWindows cols rows anchor box := by
  have := anchor.col_lt
  have := anchor.row_lt
  funext u v
  apply propext
  constructor
  · rintro ⟨x, y, has, reads⟩
    unfold Box.IsEmpty at nonempty
    simp only [Box.Has, Box.windows] at has
    -- the pixel of the box whose window starts last among those that start before `(x, y)`
    let column := min (x + anchor.shift.1) (box.x + box.width - 1)
    let row := min (y + anchor.shift.2) (box.y + box.height - 1)
    refine ⟨column, row, (x - column + anchor.shift.1).toNat, (y - row + anchor.shift.2).toNat,
      ?_, ?_, ?_, ?_⟩
    · unfold Box.Has
      omega
    · omega
    · omega
    · rwa [Int.toNat_of_nonneg (by omega), Int.toNat_of_nonneg (by omega),
        show column - anchor.shift.1 + (x - column + anchor.shift.1) = x by ring,
        show row - anchor.shift.2 + (y - row + anchor.shift.2) = y by ring]
  · rintro ⟨x, y, i, j, has, hi, hj, reads⟩
    exact ⟨_, _, Box.windows_has has hi hj, reads⟩

namespace Box

/-- Words or memory do not suffice, and the box is too long to be compared with an extent. -/
def Overlong (b : Box) (fault : Fault) : Prop :=
  Exhausted fault ∧
    ¬((b.width : ℤ) ≤ Coordinate.greatest ∧ (b.height : ℤ) ≤ Coordinate.greatest)

variable {b : Box} {length : ℕ}

theorem overlong_or_width (hlength : length ≤ b.width + 1) :
    b.Overlong .overflow ∨ length < Extent.modulus := by
  by_cases short : length < Extent.modulus
  · exact .inr short
  · refine .inl ⟨.inl rfl, fun measured => short ?_⟩
    unfold Coordinate.greatest at measured
    unfold Extent.modulus
    omega

theorem overlong_or_height (hlength : length ≤ b.height + 1) :
    b.Overlong .overflow ∨ length < Extent.modulus := by
  by_cases short : length < Extent.modulus
  · exact .inr short
  · refine .inl ⟨.inl rfl, fun measured => short ?_⟩
    unfold Coordinate.greatest at measured
    unfold Extent.modulus
    omega

theorem windows_nonempty {cols rows : ℕ} {anchor : Anchor cols rows} (nonempty : ¬b.IsEmpty) :
    ¬(b.windows anchor).IsEmpty := by
  have := anchor.col_lt
  have := anchor.row_lt
  unfold IsEmpty at nonempty ⊢
  simp only [windows]
  omega

/-- Without factors the window around a pixel is the pixel. -/
theorem windows_of_empty {κ : Type} {row col : List κ}
    {anchor : Anchor (max 1 row.length) (max 1 col.length)}
    (none : row.isEmpty = true ∧ col.isEmpty = true) : b.windows anchor = b := by
  have lengths : row.length = 0 ∧ col.length = 0 := by simpa using none
  simp only [windows, Anchor.shift_of_empty_row none.1, Anchor.shift_of_empty_col none.2, sub_zero]
  congr 1 <;> omega

end Box

namespace Tiler

section Windows

variable {box : Box} {cols rows : ℕ} {anchor : Anchor cols rows}

theorem windowsBox_overlong (fits : (box.windows anchor).Fits) :
    (windowsBox anchor box).Yields (box.windows anchor).Overlong (· = box.windows anchor) := by
  have := anchor.col_lt
  have := anchor.row_lt
  have width : box.width + cols ≤ (box.windows anchor).width + 1 := by
    simp only [Box.windows]
    omega
  have height : box.height + rows ≤ (box.windows anchor).height + 1 := by
    simp only [Box.windows]
    omega
  unfold windowsBox
  refine .bind (Coordinate.sub_yields (.inr fits.left) fun _ => ?_)
  refine .bind (Coordinate.sub_yields (.inr fits.top) fun _ => ?_)
  refine .bind (Extent.add_yields (Box.overlong_or_width width) fun _ => ?_)
  refine .bind (Extent.sub_yields (.inr (by omega)) fun _ => ?_)
  refine .bind (Extent.add_yields (Box.overlong_or_height height) fun _ => ?_)
  exact .bind (Extent.sub_yields (.inr (by omega)) fun _ => .ok rfl)

theorem growBox_overlong (fits : (box.windows anchor).Fits) :
    (growBox anchor box).Yields (box.windows anchor).Overlong (· = box.windows anchor) := by
  have := anchor.col_lt
  have := anchor.row_lt
  have width : box.width + anchor.before.1 + anchor.after.1 = (box.windows anchor).width := by
    simp only [Box.windows, Anchor.before, Anchor.after]
    omega
  have height : box.height + anchor.before.2 + anchor.after.2 = (box.windows anchor).height := by
    simp only [Box.windows, Anchor.before, Anchor.after]
    omega
  unfold growBox Box.grow
  refine .bind (Coordinate.sub_yields (.inr fits.left) fun _ => ?_)
  refine .bind (Coordinate.sub_yields (.inr fits.top) fun _ => ?_)
  refine .bind (Extent.add_yields (Box.overlong_or_width (by omega)) fun _ => ?_)
  refine .bind (Extent.add_yields (Box.overlong_or_width (by omega)) fun _ => ?_)
  refine .bind (Extent.add_yields (Box.overlong_or_height (by omega)) fun _ => ?_)
  refine .bind (Extent.add_yields (Box.overlong_or_height (by omega)) fun _ => .ok ?_)
  rw [width, height]
  rfl

end Windows

/-- The source is asked for the boxes `asked` when the windows of a box are extended, and for none
if they are too long. -/
structure AsksWindows {kcols krows : ℕ} (t : Tiler (A.Value p)) (border : Border)
    (anchor : Anchor kcols krows) (box : Box) (Q : List Box → Prop) (asked : List Box) : Prop where
  extend : Asks id []
    (fun mark => (t.watched mark).extend border (A.storage p) (box.windows anchor)) Q asked
  overlong : ∀ fault, (box.windows anchor).Overlong fault → asked = []

variable {t : Tiler (A.Value p)} {border : Border} {k : A.Coeff} {q : A.Pixel}
  {h : A.product p k = some q} {handle : Handle n} {Q : List Box → Prop} {asked : List Box}

theorem extended_asks {storage : Storage (A.Value p)} (takes : handle.Takes box t.planes)
    (asks : Asks id [] (fun mark => (t.watched mark).extend border storage box) Q asked) :
    Asks Prod.snd [] (fun mark => ((t.watched mark).extended border storage).rasterize handle box)
      Q asked := by
  refine .accept takes ?_
  exact asks.render.bind fun image _ => .of_painting (image_settles image handle _)

theorem extend_asksWindows {kcols krows : ℕ} {anchor : Anchor kcols krows} (border : Border)
    (nonempty : ¬box.IsEmpty) (fits : (box.windows anchor).Fits)
    (hcols : (t.cols : ℤ) ≤ Coordinate.greatest) (hrows : (t.rows : ℤ) ≤ Coordinate.greatest) :
    ∃ asked, t.AsksWindows border anchor box
      (Requests (border.NeedsWindows t.cols t.rows anchor box) t.bounds) asked := by
  have nonempty' : ¬(box.windows anchor).IsEmpty := Box.windows_nonempty nonempty
  by_cases long : ¬(((box.windows anchor).width : ℤ) ≤ Coordinate.greatest ∧
      ((box.windows anchor).height : ℤ) ≤ Coordinate.greatest)
  · exact ⟨[], extend_exhausts nonempty' fits long, fun _ _ => rfl⟩
  · obtain ⟨asked, asks⟩ := extend_asks (A.storage p) border nonempty' fits hcols hrows
    rw [Border.needs_windows nonempty] at asks
    exact ⟨asked, asks, fun _ overlong => absurd overlong.2 long⟩

/-- A check that fails only if the windows are too long. -/
theorem AsksWindows.check {kcols krows : ℕ} {anchor : Anchor kcols krows} {check : Check Box}
    {α σ : Type} {log : σ → Log} {f : Box → (Box → Record) → ExceptT Failure (StateM σ) α}
    (windows : t.AsksWindows border anchor box Q asked)
    (passes : check.Yields (box.windows anchor).Overlong (· = box.windows anchor))
    (asks : Asks log [] (f (box.windows anchor)) Q asked) :
    Asks log [] (fun mark => liftM check >>= (f · mark)) Q asked := by
  cases check with
  | ok source =>
    obtain rfl : source = box.windows anchor := passes
    exact asks
  | error fault =>
    obtain rfl := windows.overlong fault passes
    exact .exhausted passes.1

theorem AsksWindows.convolve {kernel : Kernel (A.Factor k)}
    {anchor : Anchor kernel.cols kernel.rows} (windows : t.AsksWindows border anchor box Q asked)
    (fits : (box.windows anchor).Fits) (takes : handle.Takes box t.planes) :
    Asks Prod.snd [.convolutionBox box kernel.cols kernel.rows]
      (fun mark => ((t.watched mark).convolve h kernel anchor (some border)).rasterize handle box)
      Q asked := by
  have patch : Asks id [] (fun mark => (t.watched mark).windowsPatch anchor (some border) box) Q
      asked := by
    refine windows.check (windowsBox_overlong fits) ?_
    exact windows.extend.bind fun _ _ => .of_settles (.check _)
  refine .accept takes (.record (patch.render.bind fun patch _ => .of_painting ?_))
  have source := (Sampler.image_settled (R := Regime.silent) patch.image).crop patch.dx patch.dy
    t.cols t.rows
  exact (source.convolve h kernel anchor none).paint handle box

theorem AsksWindows.separable {row col : List (A.Factor k)}
    {anchor : Anchor (max 1 row.length) (max 1 col.length)}
    (windows : t.AsksWindows border anchor box Q asked) (fits : (box.windows anchor).Fits)
    (takes : handle.Takes box t.planes) :
    Asks Prod.snd [.separableBox box row.length col.length]
      (fun mark => ((t.watched mark).separable h row col anchor border).rasterize handle box)
      Q asked := by
  refine .accept takes (.record ?_)
  unfold separablePasses
  by_cases none : (row.isEmpty && col.isEmpty) = true
  · simp only [if_pos none]
    simp only [Bool.and_eq_true] at none
    have extend := windows.extend
    rw [Box.windows_of_empty none] at extend
    exact extend.render.bind fun source _ => .of_painting (scalePass_settles source h handle)
  · simp only [if_neg none]
    refine windows.check (growBox_overlong fits) ?_
    refine windows.extend.render.bind fun source _ => .of_painting ?_
    split
    · exact rowPass_settles source h row handle
    split
    · exact colPass_settles source h col handle
    · exact rowColPass_settles source h row col handle _ _ _

/-- Of a source with pixels at signed coordinates, painting a box with an extension or a filter asks
for the smallest box with the pixels that the border reads, whatever the destination holds. The two
passes of a separable filter ask for the same box as a kernel of their extent, such as their outer
product, with the same anchor. -/
theorem asks_smallest_box (hcols : (t.cols : ℤ) ≤ Coordinate.greatest)
    (hrows : (t.rows : ℤ) ≤ Coordinate.greatest) (nonempty : ¬box.IsEmpty) (border : Border) :
    (box.Fits → ∃ asked, ∀ {n : ℕ} (handle : Handle n), handle.Takes box t.planes →
      Asks Prod.snd []
        (fun mark => ((t.watched mark).extended border (A.storage p)).rasterize handle box)
        (Requests (border.Needs t.cols t.rows box) t.bounds) asked) ∧
    (∀ {k : A.Coeff} {q : A.Pixel} (h : A.product p k = some q) (kernel : Kernel (A.Factor k))
      (anchor : Anchor kernel.cols kernel.rows), (box.windows anchor).Fits →
      ∃ asked, ∀ {n : ℕ} (handle : Handle n), handle.Takes box t.planes →
        Asks Prod.snd [.convolutionBox box kernel.cols kernel.rows]
          (fun mark =>
            ((t.watched mark).convolve h kernel anchor (some border)).rasterize handle box)
          (Requests (border.NeedsWindows t.cols t.rows anchor box) t.bounds) asked) ∧
    ∀ {k : A.Coeff} {q : A.Pixel} (h : A.product p k = some q) (row col : List (A.Factor k))
      (anchor : Anchor (max 1 row.length) (max 1 col.length)), (box.windows anchor).Fits →
      ∃ asked, (∀ {n : ℕ} (handle : Handle n), handle.Takes box t.planes →
        Asks Prod.snd [.separableBox box row.length col.length]
          (fun mark => ((t.watched mark).separable h row col anchor border).rasterize handle box)
          (Requests (border.NeedsWindows t.cols t.rows anchor box) t.bounds) asked) ∧
        ∀ (kernel : Kernel (A.Factor k)) (anchor' : Anchor kernel.cols kernel.rows),
          kernel.cols = max 1 row.length → kernel.rows = max 1 col.length →
          anchor'.col = anchor.col → anchor'.row = anchor.row →
          ∀ {n : ℕ} (handle : Handle n), handle.Takes box t.planes →
            Asks Prod.snd [.convolutionBox box kernel.cols kernel.rows]
              (fun mark =>
                ((t.watched mark).convolve h kernel anchor' (some border)).rasterize handle box)
              (Requests (border.NeedsWindows t.cols t.rows anchor box) t.bounds) asked := by
  refine ⟨fun fits => ?_, fun h kernel anchor fits => ?_, fun h row col anchor fits => ?_⟩
  · obtain ⟨asked, asks⟩ := extend_asks (A.storage p) border nonempty fits hcols hrows
    exact ⟨asked, fun handle takes => extended_asks takes asks⟩
  · obtain ⟨asked, windows⟩ := extend_asksWindows border nonempty fits hcols hrows
    exact ⟨asked, fun handle takes => windows.convolve fits takes⟩
  · obtain ⟨asked, windows⟩ := extend_asksWindows border nonempty fits hcols hrows
    refine ⟨asked, fun handle takes => windows.separable fits takes, ?_⟩
    rintro ⟨cols, rows, coeffs, cols_pos, rows_pos, size⟩ ⟨column, line, col_lt, row_lt⟩ rfl rfl
      rfl rfl n handle takes
    exact windows.convolve fits takes

section Examples

/-- The mark of a request. -/
def request (box : Box) : Record := .convolutionBox box 0 0

theorem request_injective : Function.Injective request := fun _ _ same => by
  cases same
  rfl

/-- Two pixels around the left end of a row. -/
def leftEnd : Box := { x := -1, width := 2, height := 1 }

/-- The middle of three coefficients in a row. -/
def middle : Anchor 3 1 := { col := 1, row := 0, col_lt := by decide, row_lt := Nat.one_pos }

/-- Two pixels, filtered by three coefficients in a row. -/
def filteredEnd (mark : Box → Record) : Paint Log Int32 2 Unit :=
  (((Tiler.image View.pair).watched mark).separable (A := .standard) (p := PixelKind.u8)
    (k := CoeffKind.i32) (q := PixelKind.i32) PixelKind.product_u8 ([1, 2, 1] : List Int32) []
    middle .reflect).rasterize (.row 2) leftEnd

/-- The windows reach two columns past the row, whose mirrored pixels are the first two. -/
theorem filteredEnd_asks_smallest_box : ∃ asked,
    Asks Prod.snd [.separableBox leftEnd 3 0] filteredEnd
      (Requests (Border.reflect.NeedsWindows 2 1 middle leftEnd) (Tiler.image View.pair).bounds)
      asked ∧ asked = [{ width := 2, height := 1 }] := by
  have nonempty : ¬leftEnd.IsEmpty := by decide
  have fits : (leftEnd.windows middle).Fits :=
    ⟨by decide, by decide, by decide, by decide⟩
  obtain ⟨-, -, separable⟩ := asks_smallest_box (A := .standard) (p := PixelKind.u8)
    (t := Tiler.image View.pair) (by decide) (by decide) nonempty .reflect
  obtain ⟨asked, asks, -⟩ := separable (k := CoeffKind.i32) (q := PixelKind.i32) rfl
    ([1, 2, 1] : List Int32) [] middle fits
  have asks : Asks Prod.snd [.separableBox leftEnd 3 0] filteredEnd _ asked :=
    asks (.row 2) ⟨rfl, rfl, rfl⟩
  refine ⟨asked, asks, List.map_injective_iff.2 request_injective ?_⟩
  have marked := asks.adds request (Vector.replicate 2 0, [])
  have log : ((filteredEnd request).run.run (Vector.replicate 2 0, [])).2.2 =
      [.separableBox leftEnd 3 0, request { width := 2, height := 1 }] := by
    decide +kernel
  rw [log] at marked
  exact (List.cons.inj marked).2.symm

/-- The pixel of a kernel that is a single coefficient. -/
def single : Anchor 1 1 := { col := 0, row := 0, col_lt := Nat.one_pos, row_lt := Nat.one_pos }

/-- A kernel that changes no pixel. -/
def unit : Kernel Int32 where
  cols := 1
  rows := 1
  coeffs := #[1]
  cols_pos := Nat.one_pos
  rows_pos := Nat.one_pos
  size_coeffs := rfl

/-- The first pixel. -/
def corner : Box := { width := 1, height := 1 }

/-- A row as long as unsigned words can count. -/
def countless : Tiler UInt8 :=
  (View.crop (A := .standard) (p := PixelKind.u8) View.repetition 0 0 0xffffffffffffffff 1).tiler

/-- A pixel without planes. -/
def planeless : Image UInt8 :=
  { cols := 1, rows := 1, planes := 0, cells := #[], size_cells := rfl }

/-- More columns than there is memory for their indices. -/
def wide : Box := { width := 0x1000000000000000, height := 1 }

/-- A destination for them. -/
def wideHandle : Handle 0 where
  start := 0
  cols := 0x1000000000000000
  rows := 1
  planes := 0
  colStride := 0
  rowStride := 0
  start_le := by decide

/-- The first pixel of the long row, convolved. -/
def blankStart : Paint Log Int32 1 Unit :=
  ((countless.watched request).convolve (A := .standard) (p := PixelKind.u8)
    (k := CoeffKind.i32) (q := PixelKind.i32) PixelKind.product_u8 unit single
    (some .zero)).rasterize (.row 1) corner

/-- A source as long as unsigned words can count is not asked for its first pixel, which is taken to
be blank. Of any source nothing is asked if there is no memory for the indices of the columns. -/
theorem countless_not_asked :
    (Border.zero.NeedsWindows countless.cols countless.rows single corner 0 0 ∧
      (corner.windows single).Fits ∧ (Handle.row 1).Takes corner countless.planes ∧
      ∃ cells, blankStart.run.run (Vector.replicate 1 7, []) =
        (.ok (), cells, [.convolutionBox corner 1 1])) ∧
    Border.replicate.Needs 1 1 wide 0 0 ∧ wide.Fits ∧ wideHandle.Takes wide planeless.planes ∧
      ((((Tiler.image planeless).watched request).extended .replicate
        (Arithmetic.storage .standard PixelKind.u8)).rasterize wideHandle wide).run.run (#v[], []) =
        (.error (.fault .capacity), #v[], []) := by
  have painted : (blankStart.run.run (Vector.replicate 1 7, [])).1.isOk := by decide +kernel
  have log : (blankStart.run.run (Vector.replicate 1 7, [])).2.2 =
      [.convolutionBox corner 1 1] := by
    decide +kernel
  obtain ⟨_, ⟨cells, log'⟩, run, same⟩ := exists_of_isOk painted
  rw [same] at log
  have corner_has : corner.Has 0 0 := ⟨⟨by decide, by decide⟩, by decide, by decide⟩
  have wide_has : wide.Has 0 0 := ⟨⟨by decide, by decide⟩, by decide, by decide⟩
  refine ⟨⟨⟨0, 0, 0, 0, corner_has, by decide, by decide, .inside (by decide)⟩, ?_,
    ⟨rfl, rfl, rfl⟩, cells, ?_⟩, ⟨0, 0, wide_has, .inside (by decide)⟩, ?_, ⟨rfl, rfl, rfl⟩, rfl⟩
  · exact ⟨by decide, by decide, by decide, by decide⟩
  · rw [run, ← log]
  · exact ⟨by decide, by decide, by decide, by decide⟩

end Examples

end Tiler

end ImageViews
