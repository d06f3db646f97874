import ImageViews.Proofs.Runs
import ImageViews.Proofs.Separation

/-!
# Boxes against points

In integer arithmetic it makes no difference how a pixel is evaluated. Rasterizing sums separable
filters in two passes, point access over the dense kernel, and either may overflow where the other
does not; but where both succeed they give the same pixel.
-/
namespace ImageViews.View

variable {A : Arithmetic} {p : A.Pixel} {box : Box}

/-- Point access gives the pixel `a`, with some valid memo. -/
def Gets (v : View A p) (x y : ℤ) (plane : ℕ) (a : A.Value p) : Prop :=
  ∃ trail trail', v.Keeps trail ∧ (v.get x y plane).run.run trail = (.ok a, trail')

theorem Gets.value {v : View A p} {x y : ℤ} {plane : ℕ} {a : A.Value p} (h : v.Gets x y plane a)
    (sound : v.Sound) (holds : v.Holds x y) (hplane : plane < v.planes)
    (hword : (plane : ℤ) ≤ Coordinate.greatest) : v.value .point x y plane = .ok a := by
  obtain ⟨trail, trail', keeps, run⟩ := h
  exact value_of_get sound holds hplane hword keeps run

/-- Point access through a prerasterized view gives what the box shows. -/
theorem Evaluated.value_of_gets {v v' : View A p} (evaluated : v.Evaluated v' box) {x y : ℤ}
    {plane : ℕ} {a : A.Value p} (h : v'.Gets x y plane a) (has : box.Has x y)
    (hplane : plane < v.planes) : v.value .box x y plane = .ok a := by
  have hplane' : plane < v'.planes := evaluated.planes_eq.symm ▸ hplane
  have planes_le := evaluated.planes_le has (Nat.zero_lt_of_lt hplane)
  have value := h.value evaluated.sound
    (evaluated.covers.holds (Nat.zero_lt_of_lt hplane') has) hplane' (by omega)
  rwa [evaluated.value_eq .point has hplane] at value

/-- Rasterizing, prerasterizing and point access give the same pixels of an integer view. -/
theorem boxes_match_points {v : View A p} (formed : v.WellFormed) (integral : v.Integral)
    (measured : v.Measured) (inside : v.Everywhere ∨ box.Within v.bounds) :
    (∀ {n : ℕ} (handle : Handle n), handle.Sound → handle.Takes box v.planes →
      ∀ cells log cells' log',
        (v.rasterize handle box).run.run (cells, log) = (.ok (), cells', log') →
        ∀ {i j plane : ℕ} {a : A.Value p}, handle.Inside i j plane →
          (v.Gets (box.x + i) (box.y + j) plane a ∨ ∃ log v' log',
            (v.prerasterize box).run.run log = (.ok v', log') ∧
              v'.Gets (box.x + i) (box.y + j) plane a) →
          handle.get cells' i j plane = .ok a) ∧
      ∀ log v' log', (v.prerasterize box).run.run log = (.ok v', log') →
        ∀ {x y : ℤ} {plane : ℕ} {a b : A.Value p}, box.Has x y → plane < v.planes →
          v'.Gets x y plane a → v.Gets x y plane b → a = b := by
  have sound := formed.sound
  have covers : v.Covers box := formed.covers_of_inside inside
  refine ⟨fun handle hs takes cells log cells' log' run i j plane a hij gets => ?_,
    fun log v' log' run x y plane a b has hplane gets' gets => ?_⟩
  · obtain ⟨shown, hshown, value⟩ := get_of_rasterize sound covers hs takes run hij
    obtain ⟨has, hplane⟩ := takes.has hij
    rw [hshown]
    rcases gets with gets | ⟨log, v', log', run', gets⟩
    · have point := gets.value sound (covers.holds (Nat.zero_lt_of_lt hplane) has) hplane
        (hs.coords_le hij).2.2
      exact congrArg Except.ok (box_eq_point integral measured value point)
    · have evaluated := evaluated_of_prerasterize sound covers run'
      rw [← value, evaluated.value_of_gets gets has hplane]
  · have evaluated := evaluated_of_prerasterize sound covers run
    have planes_le := evaluated.planes_le has (Nat.zero_lt_of_lt hplane)
    have point := gets.value sound (covers.holds (Nat.zero_lt_of_lt hplane) has) hplane (by omega)
    exact box_eq_point integral measured (evaluated.value_of_gets gets' has hplane) point

section Examples

/-- Two pixels in a row. -/
def pair : Image UInt8 := { cols := 2, rows := 1, planes := 1, cells := #[1, 2], size_cells := rfl }

/-- Two pixels filtered by a factor for the rows and one for the columns. -/
def filteredPair : View .standard PixelKind.i32 :=
  separable (A := .standard) (p := PixelKind.u8) (k := CoeffKind.i32)
    (image (A := .standard) (p := PixelKind.u8) pair .given) PixelKind.product_u8
    ([1, 2] : List Int32) ([3] : List Int32)
    { col := 0, row := 0, col_lt := by decide, row_lt := by decide } .reflect

theorem filteredPair_formed : filteredPair.WellFormed :=
  ⟨show (2 : ℤ) ≤ Coordinate.greatest by decide, by decide, by decide⟩

theorem filteredPair_boxes_match_points :
    ∃ a, filteredPair.Gets 1 0 0 a ∧ ∃ cells log,
      (filteredPair.rasterize (.row 2) { width := 2, height := 1 }).run.run
        (Vector.replicate 2 (0 : Int32), []) = (.ok (), cells, log) ∧
      (Handle.row 2).get cells 1 0 0 = .ok a := by
  have takes : (Handle.row 2).Takes { width := 2, height := 1 } filteredPair.planes :=
    ⟨rfl, rfl, rfl⟩
  have measured : filteredPair.Measured := ⟨trivial, .inr (.inr (by decide))⟩
  obtain ⟨boxes, -⟩ :=
    boxes_match_points filteredPair_formed ⟨trivial, .plain⟩ measured (.inl trivial)
  have got : ((filteredPair.get 1 0 0).run.run { memo := Memo.empty filteredPair }).1.isOk := by
    decide +kernel
  obtain ⟨a, trail, got, -⟩ := exists_of_isOk got
  have gets : filteredPair.Gets 1 0 0 a := ⟨_, _, keeps_empty _, got⟩
  have painted : ((filteredPair.rasterize (.row 2) { width := 2, height := 1 }).run.run
      (Vector.replicate 2 (0 : Int32), [])).1.isOk := by
    decide +kernel
  obtain ⟨_, ⟨cells, log⟩, run, -⟩ := exists_of_isOk painted
  exact ⟨a, gets, cells, log, run, boxes (.row 2) (Handle.row_sound (by decide)) takes _ _ _ _ run
    (i := 1) (j := 0) ⟨by decide, by decide, by decide⟩ (.inl gets)⟩

/-- Five pixels that repeat. -/
def repetition : View .standard PixelKind.u8 :=
  extend (A := .standard) (p := PixelKind.u8)
    (image (A := .standard) (p := PixelKind.u8)
      { cols := 5, rows := 1, planes := 1, cells := (#[1, 2, 3, 4, 5] : Array UInt8)
        size_cells := rfl } .given) .wrap

/-- A row as long as unsigned words can count, mirrored. -/
def longRow : View .standard PixelKind.u8 :=
  extend (A := .standard) (p := PixelKind.u8)
    (crop (A := .standard) (p := PixelKind.u8) repetition 0 0 0xffffffffffffffff 1) .reflect

theorem longRow_formed : longRow.WellFormed :=
  ⟨show (5 : ℤ) ≤ Coordinate.greatest by decide, by decide, fun _ _ _ => trivial⟩

/-- Boxes compare coordinates with extents as signed words. A crop whose extent fits unsigned words
only has no box inside, so every pixel is taken from its border. -/
theorem longRow_differs :
    (longRow.WellFormed ∧ longRow.Integral ∧ longRow.Everywhere) ∧
      ((Handle.row 1).Sound ∧ (Handle.row 1).Takes { width := 1, height := 1 } longRow.planes) ∧
      longRow.Gets 0 0 0 (1 : UInt8) ∧
      ∃ cells log, (longRow.rasterize (.row 1) { width := 1, height := 1 }).run.run
          (Vector.replicate 1 (0 : UInt8), []) = (.ok (), cells, log) ∧
        (Handle.row 1).get cells 0 0 0 = .ok (3 : UInt8) := by
  have painted : ((longRow.rasterize (.row 1) { width := 1, height := 1 }).run.run
      (Vector.replicate 1 (0 : UInt8), [])).1.isOk := by
    decide +kernel
  obtain ⟨_, ⟨cells, log⟩, run, same⟩ := exists_of_isOk painted
  have shown : ((Handle.row 1).get ((longRow.rasterize (.row 1) { width := 1, height := 1 }).run.run
      (Vector.replicate 1 (0 : UInt8), [])).2.1 0 0 0 : Check UInt8) = .ok 3 := by
    decide +kernel
  rw [same] at shown
  exact ⟨⟨longRow_formed, trivial, trivial⟩, ⟨Handle.row_sound (by decide), rfl, rfl, rfl⟩,
    ⟨{ memo := Memo.empty longRow }, _, keeps_empty _, rfl⟩, cells, log, run, shown⟩

end Examples

end ImageViews.View
