import ImageViews.Proofs.Folds
import ImageViews.Proofs.Runs
import ImageViews.Proofs.Shapes

/-!
# Boxes of separable filters

What rasterizing leaves of a separable filter at a pixel: the pixel of the extended source times
one, the fold of one factor along its axis, or the fold of the column factor over the folds of the
row factor, in the order in which the passes add. The pixels of a box are those of the extended
source whatever the box is, so they do not depend on the buffers between the passes.
-/
namespace ImageViews

variable {A : Arithmetic} {p : A.Pixel} {k : A.Coeff} {q : A.Pixel} {n : Nat}

/-- The pixel `a` is what the two passes make of a source at `(x, y)`. -/
structure Filtered (h : A.product p k = some q) (row col : List (A.Factor k))
    (anchor : Anchor (max 1 row.length) (max 1 col.length))
    (source : Int → Int → Check (A.Value p)) (x y : Int) (a : A.Value q) : Prop where
  plain : row = [] → col = [] → (do A.scale h (← source x y) (A.one k)) = .ok a
  alongRow : row ≠ [] → col = [] →
    foldLine h row.get (fun i => source (x - (row.length - 1 - anchor.col) + i) y) (A.start q) =
      .ok a
  alongCol : row = [] → col ≠ [] →
    foldLine h col.get (fun j => source x (y - (col.length - 1 - anchor.row) + j)) (A.start q) =
      .ok a
  both : row ≠ [] → col ≠ [] →
    foldLine (A.product_closed h) col.get (fun j =>
      foldLine h row.get (fun i => source (x - (row.length - 1 - anchor.col) + i)
        (y - (col.length - 1 - anchor.row) + j)) (A.start q)) (A.start q) = .ok a

section Shift

variable {κ : Type} {factor : List κ} {m : Nat}

theorem max_length (some : factor ≠ []) : max 1 factor.length = factor.length := by
  cases factor with
  | nil => exact absurd rfl some
  | cons => simp

/-- Before the anchor of a turned factor are the coefficients that follow it in the factor. -/
theorem Anchor.shift_along_row (anchor : Anchor (max 1 factor.length) m) (some : factor ≠ [])
    (hlen : (factor.length : Int) ≤ Coordinate.greatest) :
    anchor.shift.1 = factor.length - 1 - anchor.col := by
  have := anchor.col_lt
  have := max_length some
  simp only [Anchor.shift, Anchor.before]
  rw [Coordinate.ofExtent_of_le (by omega)]
  omega

theorem Anchor.shift_along_col (anchor : Anchor m (max 1 factor.length)) (some : factor ≠ [])
    (hlen : (factor.length : Int) ≤ Coordinate.greatest) :
    anchor.shift.2 = factor.length - 1 - anchor.row := by
  have := anchor.row_lt
  have := max_length some
  simp only [Anchor.shift, Anchor.before]
  rw [Coordinate.ofExtent_of_le (by omega)]
  omega

end Shift

theorem filtered_of_twoPasses {h : A.product p k = some q} {row col : List (A.Factor k)}
    {anchor : Anchor (max 1 row.length) (max 1 col.length)}
    {source : Int → Int → Check (A.Value p)} {x y : Int} {a : A.Value q}
    (hrow : (row.length : Int) ≤ Coordinate.greatest)
    (hcol : (col.length : Int) ≤ Coordinate.greatest)
    (made : twoPasses h row col anchor.shift source x y = .ok a) :
    Filtered h row col anchor source x y a := by
  constructor
  · intro no_row no_col
    rwa [twoPasses_none (by simp [no_row]) (by simp [no_col])] at made
  · intro some_row no_col
    rwa [twoPasses_row (by simp [some_row]) (by simp [no_col]), factorSum_eq_foldLine,
      anchor.shift_along_row some_row hrow] at made
  · intro no_row some_col
    rwa [twoPasses_col (by simp [no_row]) (by simp [some_col]), factorSum_eq_foldLine,
      anchor.shift_along_col some_col hcol] at made
  · intro some_row some_col
    simpa only [twoPasses_both (List.isEmpty_eq_false_iff.2 some_row)
      (List.isEmpty_eq_false_iff.2 some_col), factorSum_eq_foldLine,
      anchor.shift_along_row some_row hrow, anchor.shift_along_col some_col hcol] using made

namespace View

variable {child : View A p} {h : A.product p k = some q} {row col : List (A.Factor k)}
  {anchor : Anchor (max 1 row.length) (max 1 col.length)} {border : Border}

/-- Rendering a box of a view with a border displays the extended pixels. -/
theorem displays_of_extendedRegion (formed : child.WellFormed) {box : Box}
    {image : Image (A.Value p)} {log log' : Log}
    (run : (child.extendedRegion border box).run.run log = (.ok image, log')) :
    image.Displays box.width box.height child.planes fun x y plane =>
      child.source (some border) (box.x + x) (box.y + y) plane :=
  (Tiler.extend_yields (.inl Lenient.tolerant) formed.serves
    (formed.parts_paint (.inl Lenient.tolerant) (paints formed.sound))).value run

/-- A box of a separable filter shows the two passes over the extended pixels of the source, in the
order of the passes, and nothing else is touched. Every pass fits. -/
theorem separable_follows_passes
    (formed : (child.separable h row col anchor border).WellFormed) (box : Box) :
    (∀ {n : Nat} (handle : Handle n), handle.Sound → handle.Takes box child.planes →
      ∀ cells log cells' log',
        ((child.separable h row col anchor border).rasterize handle box).run.run (cells, log) =
          (.ok (), cells', log') →
        (∀ x y plane, handle.Inside x y plane → ∃ a, handle.get cells' x y plane = .ok a ∧
          Filtered h row col anchor (child.source (some border) · · plane)
            (box.x + x) (box.y + y) a) ∧
        ∀ cell : Fin n, (∀ x y plane, handle.Inside x y plane → handle.address x y plane ≠ cell) →
          cells'[cell] = cells[cell]) ∧
      (∀ box' log image log', (child.extendedRegion border box').run.run log = (.ok image, log') →
        image.Displays box'.width box'.height child.planes fun x y plane =>
          child.source (some border) (box'.x + x) (box'.y + y) plane) ∧
      (∀ {n : Nat} (handle : Handle n) box', handle.Sound → handle.Takes box' child.planes →
        child.Covers box' → ∀ cells log cells' log',
          (child.rasterize handle box').run.run (cells, log) = (.ok (), cells', log') →
          ∀ x y plane, handle.Inside x y plane → ∃ a, handle.get cells' x y plane = .ok a ∧
            child.value .box (box'.x + x) (box'.y + y) plane = .ok a) ∧
      (A.Fits → ∀ {n : Nat} (handle : Handle n) s,
        (((child.separable h row col anchor border).rasterize handle box).run.run s).1 ≠
          .error (.fault .passShape)) := by
  obtain ⟨child_formed, hrow, hcol⟩ := id formed
  refine ⟨?_, ?_, ?_, ?_⟩
  · intro n handle hs takes cells log cells' log' run
    constructor
    · intro x y plane inside
      obtain ⟨a, shown, made⟩ := get_of_rasterize formed.sound trivial hs takes run inside
      exact ⟨a, shown, filtered_of_twoPasses hrow hcol made⟩
    · intro cell other
      have painted := painted_of_rasterize formed.sound trivial hs takes run
      have kept := painted.outside cell fun x y plane inside _ => other x y plane inside
      simpa using kept
  · intro box' log image log' run
    exact displays_of_extendedRegion child_formed run
  · intro n handle box' hs takes covers cells log cells' log' run x y plane inside
    exact get_of_rasterize child_formed.sound covers hs takes run inside
  · intro fits n handle s
    exact tiler_fits fits (child.separable h row col anchor border) handle box s

section Example

/-- Two pixels in a row, filtered along both axes. -/
def crossed : View .standard PixelKind.i32 :=
  separable (A := .standard) (p := PixelKind.u8) (k := CoeffKind.i32)
    (image (A := .standard) (p := PixelKind.u8)
      { cols := 2, rows := 1, planes := 1, cells := (#[1, 2] : Array UInt8),
        size_cells := by decide }
      .given)
    PixelKind.product_u8 ([1, 2, 3] : List Int32) ([3, 4] : List Int32)
    { col := 1, row := 0, col_lt := by decide, row_lt := Nat.two_pos } .zero

theorem crossed_formed : crossed.WellFormed :=
  ⟨show (2 : Int) ≤ Coordinate.greatest by decide, by decide, by decide⟩

/-- The last two of three cells, as a column. -/
def lastTwo : Handle 3 :=
  { Handle.row 3 with start := 1, cols := 2, start_le := by decide }.transpose

theorem lastTwo_sound : lastTwo.Sound := by
  have window : ({ Handle.row 3 with start := 1, cols := 2, start_le := by decide } :
      Handle 3).IsWindow (.row 3) 1 0 2 1 :=
    { cols_eq := rfl, rows_eq := rfl, planes_eq := rfl, right_le := by decide
      bottom_le := by decide, strides_eq := ⟨rfl, rfl⟩, start_eq := fun _ _ _ _ => rfl }
  exact (window.sound (Handle.row_sound (by decide))).transpose

theorem crossed_follows_passes :
    (∃ cells log, (crossed.rasterize lastTwo { x := 2, y := -1, width := 1, height := 2 }).run.run
        (Vector.replicate 3 (7 : Int32), []) = (.ok (), cells, log) ∧
      lastTwo.get cells 0 1 0 = .ok (18 : Int32) ∧ cells[0] = (7 : Int32)) ∧
      ∀ s, ((crossed.rasterize lastTwo { x := 2, y := -1, width := 1, height := 2 }).run.run s).1 ≠
        .error (.fault .passShape) := by
  have painted : ((crossed.rasterize lastTwo { x := 2, y := -1, width := 1, height := 2 }).run.run
      (Vector.replicate 3 (7 : Int32), [])).1.isOk := by
    decide +kernel
  obtain ⟨_, ⟨cells, log⟩, run, -⟩ := exists_of_isOk painted
  obtain ⟨follows, -, -, fits⟩ := separable_follows_passes crossed_formed
    { x := 2, y := -1, width := 1, height := 2 }
  obtain ⟨shows, keeps⟩ := follows lastTwo lastTwo_sound ⟨rfl, rfl, rfl⟩ _ _ _ _ run
  obtain ⟨a, got, filtered⟩ := shows 0 1 0 (by decide)
  refine ⟨⟨cells, log, run, ?_, keeps 0 ?_⟩, fits Arithmetic.standard_fits lastTwo⟩
  · exact got.trans (filtered.both nofun nofun).symm
  · intro x y plane _
    change 1 + _ + plane ≠ 0
    omega

end Example

end View

end ImageViews
