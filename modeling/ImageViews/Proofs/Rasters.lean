import ImageViews.Proofs.Calm

/-!
# Boxes of views

Rasterizing a box paints the pixels of the view, through whatever buffers, borders and windows the
parts of the view are asked for theirs. What a part is asked for depends on the box, what it shows
at a pixel does not.
-/
namespace ImageViews.View

variable {E : Fault → Prop} {A : Arithmetic} {p : A.Pixel} {box : Box}

/-- What a border around a view asks for is painted. -/
theorem WellFormed.parts_paint {v : View A p} (formed : v.WellFormed)
    (room : Tolerant E ∨ v.Calm ∧ v.Moderate v.bounds)
    (paints : ∀ {box}, (Tolerant E ∨ v.Calm ∧ v.Moderate box) → v.Covers box →
      v.tiler.Paints E (v.value .box) box) (box : Box)
    (holds : 0 < v.planes → ∀ x y, box.Has x y → v.Holds x y)
    (within : Tolerant E ∨ ¬box.IsEmpty ∧ box.Within v.bounds) :
    v.tiler.Paints E (v.value .box) box := by
  refine paints ?_ (formed.covers holds)
  rcases room, within with ⟨tolerant | ⟨calm, moderate⟩, tolerant | ⟨-, within⟩⟩
  · exact .inl tolerant
  · exact .inl tolerant
  · exact .inl tolerant
  · exact .inr ⟨calm, moderate.within within⟩

/-- What a filter reads of a view, the border included. -/
def source (v : View A p) : Option Border → Int → Int → Nat → Check (A.Value p)
  | none => v.value .box
  | some border => v.tiler.bordered border (A.blank p) (v.value .box)

section Windows

variable {k : A.Coeff} {q : A.Pixel} {child : View A p} {h : A.product p k = some q}
  {kernel : Kernel (A.Factor k)} {anchor : Anchor kernel.cols kernel.rows} {border : Option Border}

theorem value_convolve : (child.convolve h kernel anchor border).value .box =
    Tiler.windowSum h kernel anchor.shift (child.source border) := by
  cases border <;> rfl

theorem Sound.addressable (sound : (child.convolve h kernel anchor border).Sound) :
    kernel.Addressable := by
  cases border with
  | none | some => exact sound.2

theorem Moderate.windows (moderate : (child.convolve h kernel anchor border).Moderate box) :
    (box.windows anchor).Moderate (A.storage p).bytes child.planes ∧
      child.cols ≤ quarter ∧ child.rows ≤ quarter := by
  cases border with
  | none => exact ⟨moderate.2.1.clear.moderate, moderate.2.2⟩
  | some border => exact ⟨moderate.2.2, moderate.2.1.extent⟩

/-- The windows of a box are rendered, with a border or without. -/
theorem windows_yields (sound : (child.convolve h kernel anchor border).Sound)
    (room : Tolerant E ∨ (child.convolve h kernel anchor border).Calm ∧
      (child.convolve h kernel anchor border).Moderate box)
    (covers : (child.convolve h kernel anchor border).Covers box)
    (paints : ∀ {box}, child.Sound → (Tolerant E ∨ child.Calm ∧ child.Moderate box) →
      child.Covers box → child.tiler.Paints E (child.value .box) box) (log : Log) :
    Yields (Failure.Tolerated E)
      (child.tiler.regionWith border (A.storage p) (box.windows anchor)) log fun image _ =>
        image.Displays (box.windows anchor).width (box.windows anchor).height child.planes
          fun x y p => child.source border ((box.windows anchor).x + x)
            ((box.windows anchor).y + y) p := by
  cases border with
  | none =>
    refine Tiler.region_yields (room.imp_right fun ⟨_, moderate⟩ =>
      moderate.2.1.clear.moderate.storable.renderable (A.storage p).bytes_pos)
      fun _ => paints sound.1 ?_ covers
    exact room.imp_right fun ⟨calm, moderate⟩ => ⟨calm.1, moderate.2.1⟩
  | some border =>
    have formed : child.WellFormed := sound.1
    have room' := room.imp_right fun ⟨calm, moderate⟩ => And.intro calm.1 moderate.2.1
    exact Tiler.extend_yields (room.imp_right fun ⟨_, moderate⟩ =>
      .of_moderate moderate.2.2 moderate.2.1.clear.moderate) formed.serves
      (formed.parts_paint room' (paints formed.sound))

end Windows

/-- Rasterizing a box that the view covers paints its pixels. -/
theorem paints {v : View A p} (sound : v.Sound)
    (room : Tolerant E ∨ v.Calm ∧ v.Moderate box) (covers : v.Covers box) :
    v.tiler.Paints E (v.value .box) box := by
  induction v generalizing box with
  | image pixels =>
    refine Tiler.image_paints sound covers ?_ fun grid hgrid x y p hx hy hp => ?_
    · rcases room with tolerant | ⟨-, -, storable⟩
      · exact fun fault _ => tolerant fault
      · exact Image.strided_tolerable sound (.inr ⟨storable.pixels_lt, storable.line_lt⟩)
    · obtain rfl := pixels.strided_yields.value hgrid
      rcases room with tolerant | ⟨-, clear, -⟩
      · exact fun fault _ => tolerant fault
      · have depth : pixels.planes ≤ quarter := clear.moderate.depth
        have reach := (clear.low.between clear.high (x := box.x + x) (y := box.y + y)
          (by omega) (by omega)).near
        exact Sampler.strided_admits reach.1 reach.2 (by omega)
  | strided grid =>
    apply Tiler.strided_paints sound covers
    intro x y p hx hy hp
    exact admits (v := strided grid) sound (room.imp_right (·.2)) (by omega) (by omega)
      ⟨Int.natCast_nonneg _, Int.ofNat_le.2 hp⟩
  | crop child x0 y0 cols rows ih =>
    refine Tiler.crop_paints (room.imp (· _) fun h => ?_)
      (ih sound (room.imp_right fun h => ⟨h.1, h.2.2⟩) covers)
    have bounds := h.2.2.clear.moderate.bounds
    simp only [quarter] at bounds
    unfold Coordinate.Fits Coordinate.least Coordinate.greatest
    omega
  | extend child border ih =>
    have formed : child.WellFormed := sound
    have room' : Tolerant E ∨ child.Calm ∧ child.Moderate child.bounds :=
      room.imp_right fun h => ⟨h.1, h.2.2⟩
    exact Tiler.extended_paints (room.imp_right fun h =>
      ⟨h.2.1.moderate, h.2.2.clear.moderate⟩) formed.serves
      (formed.parts_paint room' (ih formed.sound))
  | convolve child hprod kernel anchor border ih =>
    rw [value_convolve]
    apply Tiler.convolve_paints (t := child.tiler) sound.addressable (room.imp_right
      fun h => ⟨⟨h.2.clear.moderate, h.2.windows.1⟩, h.2.windows.2⟩)
      (windows_yields sound room covers ih)
    intro x y plane has hp
    rw [← value_convolve]
    rcases room with tolerant | ⟨calm, moderate⟩
    · exact fun fault _ => tolerant fault
    · exact value_tolerable sound calm ⟨box, moderate, has⟩
        (covers.holds (Nat.zero_lt_of_lt hp) has) hp
  | separable child _ row col anchor border ih =>
    have tolerant := room.resolve_right (·.2)
    have formed : child.WellFormed := sound.1
    exact Tiler.separable_paints tolerant fun box log =>
      Tiler.extend_yields (.inl tolerant) formed.serves
        (formed.parts_paint (.inl tolerant) (ih formed.sound))

end ImageViews.View
