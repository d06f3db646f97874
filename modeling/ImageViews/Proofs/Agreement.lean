import ImageViews.Pixel.Standard
import ImageViews.Proofs.Prerasterized

/-!
# Agreement of all evaluations

Point access, cursors, rasterizing, painting pixel by pixel and rendering a region give one and the
same pixels, and so does every one of them after the view was prerasterized, any number of times, on
boxes that shrink. No law of the arithmetic is used, since every way sums the same products in the
same order. What is used is that the coordinates have room to spare, counted in cells.
-/
namespace ImageViews.View

variable {A : Arithmetic} {p : A.Pixel} {box : Box}

/-- All ways of evaluating the box succeed and give the pixels `f`. -/
structure Agrees (v : View A p) (box : Box) (f : Int → Int → Nat → A.Value p) : Prop where
  get : ∀ {x y : Int} {plane : Nat}, box.Has x y → plane < v.planes → ∀ trail, v.Keeps trail →
    ∃ trail', (v.get x y plane).run.run trail = (.ok (f x y plane), trail') ∧ v.Keeps trail'
  place : ∀ {x y : Int} {plane : Nat}, box.Has x y → plane < v.planes →
    ∃ place, v.sampler.place x y plane = .ok place
  read : ∀ {x y : Int} {plane : Nat}, box.Has x y → plane < v.planes →
    ∀ place, v.sampler.Tracks place x y plane → ∀ trail, v.Keeps trail →
      ∃ trail', (v.sampler.read place).run.run trail = (.ok (f x y plane), trail') ∧
        v.Keeps trail'
  rasterize : ∀ {n : Nat} (handle : Handle n), handle.Sound → handle.Takes box v.planes →
    ∀ cells log, ∃ cells' log',
      (v.rasterize handle box).run.run (cells, log) = (.ok (), cells', log') ∧
        handle.Painted handle.Inside (fun x y plane => .ok (f (box.x + x) (box.y + y) plane))
          cells cells'
  paint : ∀ {n : Nat} (handle : Handle n), handle.Sound → handle.Takes box v.planes →
    ∀ cells trail, v.Keeps trail → ∃ cells' trail',
      (v.paint handle box).run.run (cells, trail) = (.ok (), cells', trail') ∧
        handle.Painted handle.Inside (fun x y plane => .ok (f (box.x + x) (box.y + y) plane))
          cells cells'
  region : ∀ log, ∃ image log', (v.region box).run.run log = (.ok image, log') ∧
    image.Displays box.width box.height v.planes
      fun x y plane => .ok (f (box.x + x) (box.y + y) plane)

/-- The view after prerasterizing one box after the other. -/
def prerasterizeAll (v : View A p) : List Box → Render (View A p)
  | [] => return v
  | box :: boxes => do
    let v ← v.prerasterize box
    v.prerasterizeAll boxes

/-- Every box lies within the one before it. -/
def Nested : Box → List Box → Prop
  | _, [] => True
  | outer, box :: boxes => box.Within outer ∧ Nested box boxes

/-- The last of some boxes. -/
def innermost : Box → List Box → Box
  | outer, [] => outer
  | _, box :: boxes => innermost box boxes

theorem Nested.within {boxes : List Box} (h : Nested box boxes) :
    (innermost box boxes).Within box := by
  induction boxes generalizing box with
  | nil => exact ⟨⟨Int.le_refl _, Int.le_refl _⟩, Int.le_refl _, Int.le_refl _⟩
  | cons inner boxes ih =>
    have within := ih h.2
    have outer := h.1
    unfold Box.Within at within outer ⊢
    simp only [innermost]
    omega

/-- All evaluations of a moderate box agree on the pixels of the view. -/
theorem agrees_of_value {v : View A p} {f : Int → Int → Nat → A.Value p} (sound : v.Sound)
    (calm : v.Calm) (moderate : v.Moderate box) (covers : v.Covers box)
    (value_eq : ∀ {x y plane}, box.Has x y → plane < v.planes →
      v.value .box x y plane = .ok (f x y plane)) : v.Agrees box f := by
  have room : Tolerant Strict ∨ v.Calm ∧ v.Moderate box := .inr ⟨calm, moderate⟩
  have depth := moderate.clear.moderate.depth
  have point {x y : Int} {plane : Nat} (has : box.Has x y) (hp : plane < v.planes) :
      v.value .point x y plane = .ok (f x y plane) :=
    (value_access ⟨box, moderate, has⟩).symm.trans (value_eq has hp)
  have tolerable {x y : Int} {plane : Nat} (has : box.Has x y) (hp : plane < v.planes) :
      (v.value .point x y plane).Tolerable Strict := by
    rw [point has hp]
    exact .ok _
  have shows {x y : Int} {plane : Nat} (has : box.Has x y) (hp : plane < v.planes) :
      v.sampler.Shows Strict v.Keeps (v.value .point x y plane) x y plane := by
    apply v.shows sound (.inr ⟨box, moderate, has⟩) (covers.holds (Nat.zero_lt_of_lt hp) has) hp
    exact le_greatest (by omega)
  have admits {x y plane : Int} (hx : box.x ≤ x ∧ x ≤ box.x + box.width)
      (hy : box.y ≤ y ∧ y ≤ box.y + box.height) (hp : 0 ≤ plane ∧ plane ≤ v.planes) :
      v.sampler.Admits Strict x y plane := v.admits sound (.inr moderate) hx hy hp
  exact {
    get := fun has hp trail keeps => by
      obtain ⟨a, trail', run, keeps', value⟩ :=
        ((shows has hp).get (tolerable has hp) trail keeps).succeeds fun _ => id
      obtain rfl := Except.ok.inj ((point has hp).symm.trans value)
      exact ⟨trail', run, keeps'⟩
    place := fun has hp => by
      unfold Box.Has at has
      exact (admits (by omega) (by omega) (by omega)).succeeds
    read := fun has hp place tracks trail keeps => by
      obtain ⟨a, trail', run, keeps', value⟩ :=
        ((shows has hp).read (tolerable has hp) place tracks trail keeps).succeeds fun _ => id
      obtain rfl := Except.ok.inj ((point has hp).symm.trans value)
      exact ⟨trail', run, keeps'⟩
    rasterize := fun handle hs takes cells log => by
      obtain ⟨_, ⟨cells', log'⟩, run, painted⟩ := (paints sound room covers handle hs takes
        cells log).succeeds Failure.not_tolerated
      refine ⟨cells', log', run, painted.of_pixel fun inside _ => ?_⟩
      obtain ⟨has, hp⟩ := takes.has inside
      exact value_eq has hp
    paint := fun handle hs takes cells trail keeps => by
      have planes_eq := v.sampler_planes
      have takes' : handle.Takes box v.sampler.planes := planes_eq.symm ▸ takes
      have paints : Yields (Failure.Tolerated Strict) (v.paint handle box) (cells, trail) fun _ s =>
          handle.Painted handle.Inside
            (fun x y plane => v.value .point (box.x + x) (box.y + y) plane)
            cells s.1 ∧ v.Keeps s.2 :=
        Sampler.paint_yields hs takes'
          (fun x y plane inside => shows (takes.has inside).1 (takes.has inside).2)
          (fun x y plane inside => tolerable (takes.has inside).1 (takes.has inside).2)
          (fun x y plane hx hy hp => admits (by omega) (by omega) (by omega)) keeps
      obtain ⟨_, ⟨cells', trail'⟩, run, painted, -⟩ := paints.succeeds Failure.not_tolerated
      refine ⟨cells', trail', run, painted.of_pixel fun inside _ => ?_⟩
      exact point (takes.has inside).1 (takes.has inside).2
    region := fun log => by
      obtain ⟨image, log', run, displays⟩ := (Tiler.region_yields (E := Strict)
        (.inr (moderate.clear.moderate.storable.renderable (A.storage p).bytes_pos))
        fun _ => paints sound room covers).succeeds (s := log) Failure.not_tolerated
      refine ⟨image, log', run, displays.congr fun x y plane a hx hy hp value => ?_⟩
      rw [← value_eq (box.has_add hx hy) hp, value] }

/-- Prerasterizing on boxes that shrink succeeds, and what is left shows the same pixels. -/
theorem prerasterizeAll_yields {v : View A p} {boxes : List Box}
    {E : Fault → Prop} (sound : v.Sound) (room : Tolerant E ∨ v.Calm ∧ v.Moderate box)
    (covers : v.Covers box) (nested : Nested box boxes) {log : Log} :
    Yields (Failure.Tolerated E) (v.prerasterizeAll boxes) log fun v' _ =>
      ((v'.Sound ∧ v'.Covers (innermost box boxes)) ∧
        (Tolerant E ∨ v'.Calm ∧ v'.Moderate (innermost box boxes))) ∧
      (v'.cols = v.cols ∧ v'.rows = v.rows ∧ v'.planes = v.planes) ∧
        ∀ {x y : Int} {plane : Nat}, (innermost box boxes).Has x y → plane < v.planes →
          v'.value .box x y plane = v.value .box x y plane := by
  induction boxes generalizing v box log with
  | nil => exact Yields.pure ⟨⟨⟨sound, covers⟩, room⟩, ⟨rfl, rfl, rfl⟩, fun _ _ => rfl⟩
  | cons inner boxes ih =>
    obtain ⟨within, nested⟩ := nested
    apply Yields.bind
    apply (prerasterize_yields sound (room.imp_right fun ⟨calm, moderate⟩ =>
      ⟨calm, moderate.within within⟩) (covers.within within)).mono
    intro v' log evaluated
    have room' := room.imp_right fun ⟨calm, moderate⟩ =>
      And.intro (evaluated.calm calm) (evaluated.moderate (moderate.within within))
    apply (ih evaluated.sound room' evaluated.covers nested).mono
    rintro v'' log ⟨kept, ⟨cols_eq, rows_eq, planes_eq⟩, value_eq⟩
    refine ⟨kept, ⟨cols_eq.trans evaluated.cols_eq, rows_eq.trans evaluated.rows_eq,
      planes_eq.trans evaluated.planes_eq⟩, fun has hp => ?_⟩
    rw [value_eq has (evaluated.planes_eq.symm ▸ hp)]
    exact evaluated.value_eq .box (nested.within.has has) hp

/-- All evaluations of a moderate box agree, also after prerasterizing on boxes that shrink. -/
theorem evaluations_agree {v : View A p} (formed : v.WellFormed) (calm : v.Calm)
    (moderate : v.Moderate box) (inside : v.Everywhere ∨ box.Within v.bounds) :
    ∃ f, v.Agrees box f ∧ ∀ boxes, Nested box boxes → ∀ log, ∃ v' log',
      (v.prerasterizeAll boxes).run.run log = (.ok v', log') ∧
        (v'.cols = v.cols ∧ v'.rows = v.rows ∧ v'.planes = v.planes) ∧
          v'.Agrees (innermost box boxes) f := by
  let f (x y : Int) (plane : Nat) : A.Value p :=
    (v.value .box x y plane).toOption.getD (A.blank p)
  have covers := formed.covers_of_inside inside
  have value_eq {x y : Int} {plane : Nat} (has : box.Has x y) (hp : plane < v.planes) :
      v.value .box x y plane = .ok (f x y plane) := by
    have tolerable : (v.value .box x y plane).Tolerable Strict :=
      v.value_tolerable formed.sound calm ⟨box, moderate, has⟩
        (covers.holds (Nat.zero_lt_of_lt hp) has) hp
    obtain ⟨a, ha⟩ := tolerable.succeeds
    simp [f, ha, Except.toOption]
  refine ⟨f, agrees_of_value formed.sound calm moderate covers value_eq, fun boxes nested log => ?_⟩
  obtain ⟨v', log', run, ⟨⟨sound', covers'⟩, room'⟩, ⟨cols_eq, rows_eq, planes_eq⟩, same⟩ :=
    (prerasterizeAll_yields (E := Strict) formed.sound (.inr ⟨calm, moderate⟩) covers
      nested).succeeds (s := log) Failure.not_tolerated
  obtain ⟨calm', moderate'⟩ := room'.resolve_left fun tolerant => tolerant .overflow
  refine ⟨v', log', run, ⟨cols_eq, rows_eq, planes_eq⟩, ?_⟩
  refine agrees_of_value sound' calm' moderate' covers' fun has hp => ?_
  rw [same has (planes_eq ▸ hp)]
  exact value_eq (nested.within.has has) (planes_eq ▸ hp)

section Spread

/-- A single pixel. -/
def dot : Image UInt8 := { cols := 1, rows := 1, planes := 1, cells := #[5], size_cells := rfl }

/-- A kernel of a single coefficient. -/
def unitKernel : Kernel Float32 where
  cols := 1
  rows := 1
  coeffs := #[1]
  cols_pos := by decide
  rows_pos := by decide
  size_coeffs := rfl

/-- A single pixel spread over the plane. -/
def spread : View .standard PixelKind.f32 :=
  convolve (A := .standard) (p := PixelKind.u8) (k := CoeffKind.f32)
    (image (A := .standard) (p := PixelKind.u8) dot .given) rfl unitKernel
    { col := 0, row := 0, col_lt := by decide, row_lt := by decide } (some .replicate)

theorem spread_formed : spread.WellFormed :=
  ⟨show (1 : Int) ≤ Coordinate.greatest by decide, show (1 : Int) ≤ Coordinate.greatest by decide⟩

theorem spread_calm : spread.Calm := ⟨trivial, fun _ _ => ⟨_, rfl⟩, fun _ _ => ⟨_, rfl⟩⟩

theorem spread_evaluations_agree :
    ∃ f, spread.Agrees { width := 16, height := 1 } f ∧ ∀ log, ∃ v' log',
      (spread.prerasterizeAll [{ x := 2, width := 4, height := 1 }]).run.run log = (.ok v', log') ∧
        v'.Agrees { x := 2, width := 4, height := 1 } f := by
  have moderate : spread.Moderate { width := 16, height := 1 } :=
    @of_decide_eq_true _ (spread.decideModerate _) rfl
  obtain ⟨f, agrees, prerasterized⟩ :=
    evaluations_agree spread_formed spread_calm moderate (.inl trivial)
  refine ⟨f, agrees, fun log => ?_⟩
  obtain ⟨v', log', run, -, agrees'⟩ := prerasterized [{ x := 2, width := 4, height := 1 }]
    ⟨by unfold Box.Within; decide, trivial⟩ log
  exact ⟨v', log', run, agrees'⟩

/-- Room to spare for the coordinates and the buffer alone is not enough: cursors count rows in
cells, so a row far down is out of reach for a box of some width, although every pixel can be
asked for. -/
theorem spread_far_row_overflows :
    let box : Box := { y := 0x1000000000000000, width := 16, height := 1 }
    (spread.WellFormed ∧ spread.Calm ∧ spread.Everywhere) ∧
      (box.y + box.height ≤ quarter ∧ box.width * box.height * max 1 spread.planes ≤ quarter) ∧
      ((Handle.row 16).Sound ∧ (Handle.row 16).Takes box spread.planes) ∧
      (∃ a, ((spread.get box.x box.y 0).run.run { memo := Memo.empty spread }).1 = .ok a) ∧
      ((spread.rasterize (.row 16) box).run.run (Vector.replicate 16 (0 : Float32), [])).1 =
        .error (.fault .overflow) :=
  ⟨⟨spread_formed, spread_calm, trivial⟩, ⟨by decide, by decide⟩,
    ⟨Handle.row_sound (by decide), rfl, rfl, rfl⟩, ⟨_, rfl⟩, rfl⟩

end Spread

end ImageViews.View
