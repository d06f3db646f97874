import ImageViews.Proofs.Rasters

/-!
# Prerasterized views

Prerasterizing a box leaves a view that holds the pixels of the box and shows them as before,
whichever way it is read. It asks for no more than the view it comes from, so it can be evaluated,
and prerasterized again, wherever that could be.
-/
namespace ImageViews.View

variable {E : Fault → Prop} {A : Arithmetic} {p : A.Pixel} {box : Box}

/-- Whatever reaches a pixel of the view reaches it in the evaluated view, seen from the corner of
the box. The steps are those of the buffer of the box, or those of before. -/
structure Follows (v v' : View A p) (box : Box) : Prop where
  reaches : ∀ {steps : Nat × Nat} {x y : Int}, v.Reaches steps x y → v.Reaches steps box.x box.y →
    Near steps.1 (x - box.x) → Near steps.2 (y - box.y) → v'.Reaches steps x y
  steps_eq : v'.steps = (v.planes, box.width * v.planes) ∨
    v'.steps = v.steps ∧ ∀ {steps : Nat × Nat} {x y : Int}, v.Reaches steps x y →
      v'.Reaches steps x y

/-- The evaluated view shows the pixels of the box and asks for no more than the view does. -/
structure Evaluated (v v' : View A p) (box : Box) : Prop where
  sound : v'.Sound
  covers : v'.Covers box
  cols_eq : v'.cols = v.cols
  rows_eq : v'.rows = v.rows
  planes_eq : v'.planes = v.planes
  planes_le : ∀ {x y : Int}, box.Has x y → 0 < v.planes → (v.planes : Int) ≤ Coordinate.greatest
  value_eq : ∀ access {x y : Int} {plane : Nat}, box.Has x y → plane < v.planes →
    v'.value access x y plane = v.value .box x y plane
  calm : v.Calm → v'.Calm
  follows : v.Moderate box → v.Follows v' box
  moderate : v.Moderate box → v'.Moderate box

section Clear

variable {v v' : View A p}

/-- What is clear for the view is clear for the evaluated view. -/
theorem Follows.clear (follows : v.Follows v' box) (planes_eq : v'.planes = v.planes)
    (clear : v.Clear box) : v'.Clear box := by
  have buffer := clear.moderate.buffer
  have here : Near v.planes 0 ∧ Near (box.width * v.planes) 0 := ⟨buffer.left, buffer.top⟩
  have low : v'.Reaches (v.planes, box.width * v.planes) box.x box.y :=
    follows.reaches clear.buffer_low clear.buffer_low (by simpa using here.1)
      (by simpa using here.2)
  have high : v'.Reaches (v.planes, box.width * v.planes) (box.x + box.width)
      (box.y + box.height) := by
    have width : box.x + box.width - box.x = box.width := by omega
    have height : box.y + box.height - box.y = box.height := by omega
    refine follows.reaches clear.buffer_high clear.buffer_low ?_ ?_
    · simpa [width, Box.ofExtent] using buffer.right
    · simpa [height, Box.ofExtent] using buffer.bottom
  refine ⟨planes_eq ▸ clear.moderate, ?_, ?_, planes_eq ▸ low, planes_eq ▸ high⟩
  · rcases follows.steps_eq with steps | ⟨steps, reaches⟩
    · exact steps ▸ low
    · exact steps ▸ reaches clear.low
  · rcases follows.steps_eq with steps | ⟨steps, reaches⟩
    · exact steps ▸ high
    · exact steps ▸ reaches clear.high

end Clear

section Patch

variable {patch : Tiler.Patch (A.Value p)} {planes : Nat}
  {pixel : Int → Int → Nat → Check (A.Value p)} {cols rows : Nat}

theorem ofPatch_reaches (h : patch.Shows box planes pixel) {steps : Nat × Nat} {x y : Int}
    (there : Near steps.1 x ∧ Near steps.2 y) (corner : Near steps.1 box.x ∧ Near steps.2 box.y)
    (hx : Near steps.1 (x - box.x)) (hy : Near steps.2 (y - box.y)) :
    (ofPatch patch cols rows).Reaches steps x y := by
  refine ⟨there, ?_, ?_⟩
  · rw [h.dx_eq, h.dy_eq, ← Int.sub_eq_add_neg, ← Int.sub_eq_add_neg]
    exact ⟨hx, hy⟩
  · rw [h.dx_eq, h.dy_eq]
    exact ⟨corner.1.neg, corner.2.neg⟩

/-- Cursors over an image of moderate extent move by the strides of its buffer. -/
theorem image_steps {image : Image (A.Value p)} (provenance : Provenance) {width height : Nat}
    {shown : Nat → Nat → Nat → Check (A.Value p)}
    (displays : image.Displays width height planes shown) {bytes : Nat}
    (moderate : (Box.ofExtent width height).Moderate bytes planes) :
    (View.image image provenance).steps = (planes, width * planes) := by
  have strides := moderate.strides
  have steps : (View.image image provenance).steps = ((Coordinate.ofExtent image.planes).natAbs,
      (Coordinate.ofExtent (image.cols * image.planes)).natAbs) := rfl
  simp only [Box.ofExtent] at strides
  rw [steps, displays.planes_eq, displays.cols_eq, strides.1, strides.2]

/-- An image of moderate extent is within reach as a whole. -/
theorem image_moderate {image : Image (A.Value p)} {provenance : Provenance} {width height : Nat}
    {shown : Nat → Nat → Nat → Check (A.Value p)}
    (displays : image.Displays width height planes shown)
    (moderate : (Box.ofExtent width height).Moderate (A.storage p).bytes planes) :
    (View.image image provenance).Moderate (.ofExtent width height) := by
  have steps := image_steps provenance displays moderate
  have planes_eq : (View.image image provenance).planes = planes := displays.planes_eq
  have low : (View.image image provenance).Reaches (planes, width * planes) 0 0 :=
    ⟨moderate.left, moderate.top⟩
  have high : (View.image image provenance).Reaches (planes, width * planes) (0 + width)
      (0 + height) := ⟨moderate.right, moderate.bottom⟩
  refine ⟨⟨planes_eq ▸ moderate, steps ▸ low, steps ▸ high, planes_eq ▸ low, planes_eq ▸ high⟩, ?_⟩
  have storable := moderate.storable
  rw [displays.cols_eq, displays.rows_eq, displays.planes_eq]
  exact storable

theorem ofPatch_sound (h : patch.Shows box planes pixel) : (ofPatch patch cols rows).Sound :=
  h.displays.addressable

theorem ofPatch_covers (h : patch.Shows box planes pixel) :
    (ofPatch patch cols rows).Covers box := by
  intro _ x y has
  have back : box.Has (x - patch.dx) (y - patch.dy) := by
    unfold Box.Has at has ⊢
    simp only at has
    omega
  have holds := h.holds back
  rwa [Int.sub_add_cancel, Int.sub_add_cancel] at holds

theorem ofPatch_value (h : patch.Shows box planes pixel) (access : Access) {x y : Int} {plane : Nat}
    (has : box.Has x y) (hplane : plane < planes) :
    (ofPatch patch cols rows).value access x y plane = pixel x y plane := h.value_eq has hplane

theorem ofPatch_moderate (h : patch.Shows box planes pixel)
    (moderate : box.Moderate (A.storage p).bytes planes) :
    (ofPatch patch cols rows).Moderate box := by
  have planes_eq : (ofPatch patch cols rows).planes = planes := h.displays.planes_eq
  have steps : (ofPatch patch cols rows).steps = (planes, box.width * planes) :=
    image_steps _ h.displays moderate.buffer
  have buffer := moderate.buffer
  have width : box.x + box.width - box.x = box.width := by omega
  have height : box.y + box.height - box.y = box.height := by omega
  have low : (ofPatch patch cols rows).Reaches (planes, box.width * planes) box.x box.y := by
    refine ofPatch_reaches h ⟨moderate.left, moderate.top⟩ ⟨moderate.left, moderate.top⟩ ?_ ?_
    · simpa [Box.ofExtent] using buffer.left
    · simpa [Box.ofExtent] using buffer.top
  have high : (ofPatch patch cols rows).Reaches (planes, box.width * planes) (box.x + box.width)
      (box.y + box.height) := by
    refine ofPatch_reaches h ⟨moderate.right, moderate.bottom⟩ ⟨moderate.left, moderate.top⟩ ?_ ?_
    · simpa [width, Box.ofExtent] using buffer.right
    · simpa [height, Box.ofExtent] using buffer.bottom
  have clear : (ofPatch patch cols rows).Clear box :=
    ⟨planes_eq ▸ moderate, steps ▸ low, steps ▸ high, planes_eq ▸ low, planes_eq ▸ high⟩
  refine ⟨clear, ?_⟩
  have moved : ({ box with x := box.x + patch.dx, y := box.y + patch.dy } : Box) =
      .ofExtent box.width box.height := by
    rw [h.dx_eq, h.dy_eq, Int.add_right_neg, Int.add_right_neg]
    rfl
  rw [moved]
  exact image_moderate h.displays buffer

theorem ofPatch_evaluated {v : View A p} (h : patch.Shows box v.planes (v.value .box)) :
    v.Evaluated (ofPatch patch v.cols v.rows) box where
  sound := ofPatch_sound h
  covers := ofPatch_covers h
  cols_eq := rfl
  rows_eq := rfl
  planes_eq := h.displays.planes_eq
  planes_le := h.planes_le
  value_eq access _ _ _ has hplane := ofPatch_value h access has hplane
  calm _ := trivial
  follows moderate :=
    { reaches := fun there corner => ofPatch_reaches h there.near corner.near
      steps_eq := .inl (image_steps _ h.displays moderate.clear.moderate.buffer) }
  moderate moderate := ofPatch_moderate h moderate.clear.moderate

end Patch

section Parts

variable {k : A.Coeff} {q : A.Pixel} {child child' : View A p}

theorem strided_evaluated {grid : Strided (A.Value p)} (sound : grid.Sound)
    (covers : (strided grid : View A p).Covers box) :
    (strided grid : View A p).Evaluated (strided grid) box where
  sound := sound
  covers := covers
  cols_eq := rfl
  rows_eq := rfl
  planes_eq := rfl
  planes_le has hplanes := by
    have holds := covers hplanes _ _ has
    unfold Strided.Holds at holds
    have size := Int.le_trans (Int.ofNat_le.2 sound.count_le) sound.size_le
    exact (Image.extents_fit (by omega) (by omega) hplanes size).2.2
  value_eq _ _ _ _ _ _ := rfl
  calm := id
  follows _ := { reaches := fun there _ _ _ => there, steps_eq := .inr ⟨rfl, id⟩ }
  moderate := id

theorem image_evaluated {pixels : Image (A.Value p)} {provenance : Provenance}
    (sound : pixels.Addressable) (covers : (View.image pixels provenance).Covers box)
    {grid : Strided (A.Value p)} (h : pixels.strided = .ok grid) :
    (View.image pixels provenance).Evaluated (strided grid) box := by
  have value_eq (access : Access) {x y : Int} {plane : Nat} (has : box.Has x y)
      (hplane : plane < pixels.planes) : grid.value x y plane = pixels.value x y plane :=
    Image.strided_value sound h (covers (Nat.zero_lt_of_lt hplane) x y has) hplane
  have sound' := Image.strided_sound sound h
  have shape := pixels.strided_yields.value h
  have follows : (View.image pixels provenance).Follows (strided grid) box := by
    rw [shape]
    exact { reaches := fun there _ _ _ => there, steps_eq := .inr ⟨rfl, id⟩ }
  subst shape
  exact {
    sound := sound'
    covers
    cols_eq := rfl
    rows_eq := rfl
    planes_eq := rfl
    planes_le := fun has hplanes => by
      have holds := covers hplanes _ _ has
      unfold Image.Holds at holds
      have size : (pixels.cells.size : Int) ≤ Coordinate.greatest := sound
      rw [pixels.size_cells] at size
      exact (Image.extents_fit (by omega) (by omega) hplanes size).2.2
    value_eq
    calm := id
    follows := fun _ => follows
    moderate := fun moderate => follows.clear rfl moderate.1 }

theorem crop_evaluated {x0 y0 : Int} {cols rows : Nat}
    (h : child.Evaluated child' { box with x := box.x + x0, y := box.y + y0 }) :
    (child.crop x0 y0 cols rows).Evaluated (child'.crop x0 y0 cols rows) box := by
  have follows (moderate : (child.crop x0 y0 cols rows).Moderate box) :
      (child.crop x0 y0 cols rows).Follows (child'.crop x0 y0 cols rows) box :=
    { reaches := fun {steps x y} there corner hx hy => by
        have inner := h.follows moderate.2
        refine ⟨there.1, ?_, ?_⟩
        · refine inner.reaches there.2.1 corner.2.1 ?_ ?_
          · have same : x + x0 - (box.x + x0) = x - box.x := by omega
            rwa [same]
          · have same : y + y0 - (box.y + y0) = y - box.y := by omega
            rwa [same]
        · refine inner.reaches there.2.2 corner.2.1 ?_ ?_
          · have left := corner.1.1.neg
            have same : x0 - (box.x + x0) = -box.x := by omega
            rwa [← same] at left
          · have top := corner.1.2.neg
            have same : y0 - (box.y + y0) = -box.y := by omega
            rwa [← same] at top
      steps_eq := (h.follows moderate.2).steps_eq.imp id fun ⟨steps, reaches⟩ =>
        ⟨steps, fun there => ⟨there.1, reaches there.2.1, reaches there.2.2⟩⟩ }
  have moved {x y : Int} (has : box.Has x y) :
      ({ box with x := box.x + x0, y := box.y + y0 } : Box).Has (x + x0) (y + y0) := by
    unfold Box.Has at has ⊢
    simp only
    omega
  exact {
    sound := h.sound
    covers := h.covers
    cols_eq := rfl
    rows_eq := rfl
    planes_eq := h.planes_eq
    planes_le := fun has => h.planes_le (moved has)
    value_eq := fun access x y plane has => h.value_eq access (moved has)
    calm := h.calm
    follows
    moderate := fun moderate =>
      ⟨(follows moderate).clear h.planes_eq moderate.1, h.moderate moderate.2⟩ }

/-- The patch of the windows of a box, under a filter without a border. -/
theorem convolve_evaluated {hprod : A.product p k = some q} {kernel : Kernel (A.Factor k)}
    {anchor : Anchor kernel.cols kernel.rows} {border : Option Border}
    {patch : Tiler.Patch (A.Value p)} {shown : Int → Int → Nat → Check (A.Value p)}
    (hkernel : kernel.Addressable) (h : patch.Shows (box.windows anchor) child.planes shown)
    (value_eq : (child.convolve hprod kernel anchor border).value .box =
      Tiler.windowSum hprod kernel anchor.shift shown)
    (windows : (child.convolve hprod kernel anchor border).Moderate box →
      (box.windows anchor).Moderate (A.storage p).bytes child.planes ∧
        child.cols ≤ quarter ∧ child.rows ≤ quarter) :
    (child.convolve hprod kernel anchor border).Evaluated
      (.convolve (ofPatch patch child.cols child.rows) hprod kernel anchor none) box := by
  have follows : (child.convolve hprod kernel anchor border).Follows
      (.convolve (ofPatch patch child.cols child.rows) hprod kernel anchor none) box :=
    { reaches := fun there _ _ _ => there, steps_eq := .inr ⟨rfl, id⟩ }
  exact {
    sound := ⟨ofPatch_sound h, hkernel⟩
    covers := ofPatch_covers h
    cols_eq := rfl
    rows_eq := rfl
    planes_eq := h.displays.planes_eq
    planes_le := fun has =>
      h.planes_le (Box.windows_has has kernel.cols_pos kernel.rows_pos)
    value_eq := fun access x y plane has hplane => by
      rw [value_eq]
      exact Kernel.sum_congr fun i j hi hj =>
        ofPatch_value h access (Box.windows_has has hi hj) hplane
    calm := fun calm => ⟨trivial, calm.2⟩
    follows := fun _ => follows
    moderate := fun moderate =>
      ⟨follows.clear h.displays.planes_eq moderate.clear,
        ofPatch_moderate h (windows moderate).1, (windows moderate).2⟩ }

end Parts

/-- A prerasterized view shows the pixels of the box. -/
theorem prerasterize_yields {v : View A p} (sound : v.Sound)
    (room : Tolerant E ∨ v.Calm ∧ v.Moderate box) (covers : v.Covers box) {log : Log} :
    Yields (Failure.Tolerated E) (v.prerasterize box) log fun v' _ => v.Evaluated v' box := by
  induction v generalizing box log with
  | image pixels =>
    refine Yields.bind (Yields.check (.of_tolerable ?_ fun grid hgrid => ?_))
    · refine Image.strided_tolerable sound (room.imp (· _) ?_)
      intro h
      exact ⟨h.2.2.pixels_lt, h.2.2.line_lt⟩
    · exact Yields.pure (image_evaluated sound covers hgrid)
  | strided grid => exact Yields.pure (strided_evaluated sound covers)
  | crop child x0 y0 cols rows ih =>
    refine Yields.bind (Yields.check ((Box.translate_yields (room.imp (· _) ?_)).mono ?_))
    · rintro ⟨_, moderate⟩
      have bounds := moderate.2.clear.moderate.bounds
      simp only [quarter] at bounds
      unfold Coordinate.Fits Coordinate.least Coordinate.greatest
      omega
    rintro _ rfl
    apply Yields.bind
    apply (ih sound (room.imp_right fun h => ⟨h.1, h.2.2⟩)
      covers).mono
    intro child' log evaluated
    exact Yields.pure (crop_evaluated evaluated)
  | extend child border ih =>
    have formed : child.WellFormed := sound
    have room' : Tolerant E ∨ child.Calm ∧ child.Moderate child.bounds :=
      room.imp_right fun h => ⟨h.1, h.2.2⟩
    have clear := room.imp_right (·.2.1.moderate)
    apply Yields.bind
    apply (Tiler.extend_yields (room.imp_right fun h =>
      .of_moderate h.2.1.moderate h.2.2.clear.moderate) formed.serves
      (formed.parts_paint room' (paints formed.sound))).mono
    intro image log displays
    refine Yields.bind (Yields.check ((Tiler.Patch.ofBox_yields displays clear).mono ?_))
    exact fun patch shows => Yields.pure (ofPatch_evaluated shows)
  | convolve child hprod kernel anchor border ih =>
    have windows := room.imp_right (·.2.windows.1)
    apply Yields.bind
    apply (Tiler.windowsPatch_yields windows
      (windows_yields sound room covers paints)).mono
    intro patch log shows
    exact Yields.pure (convolve_evaluated sound.addressable shows value_convolve Moderate.windows)
  | separable child hprod row col anchor border ih =>
    have tolerant := room.resolve_right (·.2)
    have formed : child.WellFormed := sound.1
    refine Yields.bind ((Image.render_yields (.inl tolerant) fun _ handle hs whole log =>
      Tiler.separablePasses_yields tolerant hs ⟨whole.cols_eq, whole.rows_eq, whole.planes_eq⟩
        fun box log => Tiler.extend_yields (.inl tolerant) formed.serves
          (formed.parts_paint (.inl tolerant) (paints formed.sound))).mono ?_)
    intro image log displays
    have patch : (Tiler.Patch.ofBox image box).Yields E
        (·.Shows box child.planes ((child.separable hprod row col anchor border).value .box)) :=
      Tiler.Patch.ofBox_yields displays (.inl tolerant : _ ∨ box.Moderate 1 _)
    refine Yields.bind (Yields.check (patch.mono ?_))
    exact fun patch shows => Yields.pure (ofPatch_evaluated shows)

end ImageViews.View
