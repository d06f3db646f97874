import ImageViews.Proofs.Prerasterized

/-!
# Evaluations that succeed

Whatever the arithmetic and the coordinates, an evaluation that succeeds gives the pixels of the
view. Only the pixels that are read have to be there.
-/
namespace ImageViews.View

variable {A : Arithmetic} {p : A.Pixel} {v v' : View A p} {box : Box} {n : Nat}

theorem painted_of_rasterize (sound : v.Sound) (covers : v.Covers box) {handle : Handle n}
    (hs : handle.Sound) (takes : handle.Takes box v.planes) {cells cells' : Vector (A.Value p) n}
    {log log' : Log}
    (run : (v.rasterize handle box).run.run (cells, log) = (.ok (), cells', log')) :
    handle.Painted handle.Inside (fun x y plane => v.value .box (box.x + x) (box.y + y) plane)
      cells cells' :=
  (paints sound (.inl Lenient.tolerant) covers handle hs takes cells log).value run

/-- What a destination shows is the value of the pixel. -/
theorem get_of_rasterize (sound : v.Sound) (covers : v.Covers box) {handle : Handle n}
    (hs : handle.Sound) (takes : handle.Takes box v.planes) {cells cells' : Vector (A.Value p) n}
    {log log' : Log} (run : (v.rasterize handle box).run.run (cells, log) = (.ok (), cells', log'))
    {x y plane : Nat} (inside : handle.Inside x y plane) :
    ∃ a, handle.get cells' x y plane = .ok a ∧
      v.value .box (box.x + x) (box.y + y) plane = .ok a := by
  have painted := painted_of_rasterize sound covers hs takes run
  have cell := painted.inside inside inside
  rw [fetchCell_toArray (hs.reach inside).2.2] at cell
  refine ⟨_, ?_, cell.symm⟩
  rw [hs.get_eq inside, fetchCell_toArray (hs.reach inside).2.2]

theorem value_of_get (sound : v.Sound) {x y : Int} {plane : Nat} (holds : v.Holds x y)
    (hplane : plane < v.planes) (hword : (plane : Int) ≤ Coordinate.greatest)
    {trail trail' : Trail v.Memo} (keeps : v.Keeps trail) {a : A.Value p}
    (run : (v.get x y plane).run.run trail = (.ok a, trail')) :
    v.value .point x y plane = .ok a :=
  (((shows sound (.inl Lenient.tolerant) holds hplane hword).get (fun _ _ => trivial) trail
    keeps).value run).2

theorem displays_of_region (sound : v.Sound) (covers : v.Covers box) {image : Image (A.Value p)}
    {log log' : Log} (run : (v.region box).run.run log = (.ok image, log')) :
    image.Displays box.width box.height v.planes
      fun x y plane => v.value .box (box.x + x) (box.y + y) plane :=
  (Tiler.region_yields (.inl Lenient.tolerant) fun _ =>
    paints sound (.inl Lenient.tolerant) covers).value run

theorem evaluated_of_prerasterize (sound : v.Sound) (covers : v.Covers box) {log log' : Log}
    (run : (v.prerasterize box).run.run log = (.ok v', log')) : v.Evaluated v' box :=
  (prerasterize_yields sound (.inl Lenient.tolerant) covers).value run

end ImageViews.View
