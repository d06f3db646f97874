import ImageViews.Pixel.Standard
import ImageViews.Proofs.Runs

/-!
# Tiles

A box can be rasterized tile by tile, each into the window that shows it. Every tile takes its own
way through borders and buffers, but it paints the pixels of the view and nothing else, so tiles in
any order leave what one box leaves, wherever they overlap.
-/
namespace ImageViews.View

variable {E : Fault → Prop} {A : Arithmetic} {p : A.Pixel} {v : View A p} {box : Box} {n : Nat}

/-- Rasterizes tiles of a box one after the other, each into its window of a destination. -/
def rasterizeTiles (v : View A p) (handle : Handle n) (box : Box) :
    List Box → Paint Log (A.Value p) n Unit
  | [] => return
  | tile :: tiles => do
    v.tiler.paintPart box tile handle
    v.rasterizeTiles handle box tiles

/-- The positions of a destination of the box that belong to one of the tiles. -/
def Tiled (box : Box) (tiles : List Box) (x y _plane : Nat) : Prop :=
  ∃ tile ∈ tiles, tile.Has (box.x + x) (box.y + y)

theorem rasterizeTiles_yields (tolerant : Tolerant E) (sound : v.Sound) (covers : v.Covers box)
    {handle : Handle n} (hs : handle.Sound) (takes : handle.Takes box v.planes)
    {tiles : List Box} (within : ∀ tile ∈ tiles, tile.Within box)
    {cells : Vector (A.Value p) n} {log : Log} :
    Yields (Failure.Tolerated E) (v.rasterizeTiles handle box tiles) (cells, log) fun _ s =>
      handle.Painted (Tiled box tiles)
        (fun x y plane => v.value .box (box.x + x) (box.y + y) plane) cells s.1 := by
  induction tiles generalizing cells log with
  | nil => exact Yields.pure (.nothing fun _ _ _ tiled => by simp [Tiled] at tiled)
  | cons tile tiles ih =>
    have inside := within tile List.mem_cons_self
    have part := paints sound (.inl tolerant) (covers.within inside)
    refine Yields.bind ((Tiler.paintPart_yields hs takes inside.1.1 inside.2.1
      (.inl tolerant) part).mono fun _ ⟨cells', log'⟩ first => ?_)
    apply (ih fun tile mem => within tile (List.mem_cons_of_mem _ mem)).mono
    intro _ s rest
    apply (first.trans hs rest).congr
    intro x y plane _
    unfold Tiled
    simp

/-- Tiles that cover a box leave what rasterizing the box leaves, and what is left for a pixel does
not depend on the box. -/
theorem tiles_seamless (formed : v.WellFormed) (inside : v.Everywhere ∨ box.Within v.bounds)
    {handle : Handle n} (hs : handle.Sound) (takes : handle.Takes box v.planes)
    {cells cells₁ : Vector (A.Value p) n} {log log₁ : Log}
    (run : (v.rasterize handle box).run.run (cells, log) = (.ok (), cells₁, log₁)) :
    (∀ tiles : List Box, (∀ tile ∈ tiles, tile.Within box) →
      (∀ x y, box.Has x y → ∃ tile ∈ tiles, tile.Has x y) → ∀ log cells₂ log₂,
        (v.rasterizeTiles handle box tiles).run.run (cells, log) = (.ok (), cells₂, log₂) →
        cells₂ = cells₁) ∧
      ∀ box', (v.Everywhere ∨ box'.Within v.bounds) → ∀ {n' : Nat} (handle' : Handle n'),
        handle'.Sound → handle'.Takes box' v.planes → ∀ cells log cells₂ log₂,
        (v.rasterize handle' box').run.run (cells, log) = (.ok (), cells₂, log₂) →
        ∀ {i j i' j' plane : Nat}, handle.Inside i j plane → handle'.Inside i' j' plane →
          box'.x + i' = box.x + i → box'.y + j' = box.y + j →
            handle'.get cells₂ i' j' plane = handle.get cells₁ i j plane := by
  have sound := formed.sound
  have covers : v.Covers box := formed.covers_of_inside inside
  refine ⟨fun tiles within cover log cells₂ log₂ run' => ?_,
    fun box' inside' n' handle' hs' takes' cells log cells₂ log₂ run' i j i' j' plane hij hij'
      same_x same_y => ?_⟩
  · have whole := painted_of_rasterize sound covers hs takes run
    have tiled := (rasterizeTiles_yields Lenient.tolerant sound covers hs takes within).value run'
    refine Handle.Painted.unique (tiled.congr fun x y plane hxy => ?_) whole
    exact iff_of_true (cover _ _ (takes.has hxy).1) hxy
  · obtain ⟨a, shown, value⟩ := get_of_rasterize sound covers hs takes run hij
    obtain ⟨a', shown', value'⟩ := get_of_rasterize sound (formed.covers_of_inside inside') hs'
      takes' run' hij'
    rw [same_x, same_y, value] at value'
    rw [shown, shown', value']

section Stripe

/-- Three pixels that repeat. -/
def stripe : View .standard PixelKind.u8 :=
  extend (A := .standard) (p := PixelKind.u8)
    (image (A := .standard) (p := PixelKind.u8)
      { cols := 3, rows := 1, planes := 1, cells := (#[1, 2, 3] : Array UInt8), size_cells := rfl }
      .given) .wrap

def stripeBox : Box := { x := -1, width := 4, height := 1 }

/-- Two tiles that overlap, the last one first. -/
def stripeTiles : List Box :=
  [{ x := 1, width := 2, height := 1 }, { x := -1, width := 3, height := 1 }]

theorem stripe_tiles_seamless : ∃ cells log₁ log₂,
    (stripe.rasterize (.row 4) stripeBox).run.run (Vector.replicate 4 (0 : UInt8), []) =
        (.ok (), cells, log₁) ∧
      (stripe.rasterizeTiles (.row 4) stripeBox stripeTiles).run.run
        (Vector.replicate 4 (0 : UInt8), []) = (.ok (), cells, log₂) := by
  have formed : stripe.WellFormed := show (3 : Int) ≤ Coordinate.greatest by decide
  have whole : ((stripe.rasterize (.row 4) stripeBox).run.run
      (Vector.replicate 4 (0 : UInt8), [])).1.isOk := by
    decide +kernel
  have tiled : ((stripe.rasterizeTiles (.row 4) stripeBox stripeTiles).run.run
      (Vector.replicate 4 (0 : UInt8), [])).1.isOk := by
    decide +kernel
  obtain ⟨_, ⟨cells₁, log₁⟩, run₁, -⟩ := exists_of_isOk whole
  obtain ⟨_, ⟨cells₂, log₂⟩, run₂, -⟩ := exists_of_isOk tiled
  have takes : (Handle.row 4).Takes stripeBox stripe.planes := ⟨rfl, rfl, rfl⟩
  have sound : (Handle.row 4).Sound := Handle.row_sound (by decide)
  have seamless := (tiles_seamless formed (.inl trivial) sound takes run₁).1 stripeTiles ?_ ?_
    _ _ _ run₂
  · exact ⟨cells₁, log₁, log₂, run₁, seamless ▸ run₂⟩
  · simp [stripeTiles, stripeBox, Box.Within]
  · simp only [stripeTiles, stripeBox, Box.Has, List.mem_cons, List.not_mem_nil]
    intro x y has
    rcases Int.lt_or_le x 1 with left | right
    · exact ⟨_, .inr (.inl rfl), by simp only; omega⟩
    · exact ⟨_, .inl rfl, by simp only; omega⟩

end Stripe

end ImageViews.View
