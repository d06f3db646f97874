import ImageViews.Proofs.Following

/-!
# Filters in step

Filters of tilers in step are in step: both sides render the same boxes of their sources, read them
by cursors in step, and paint handles in step. One-dimensional passes walk over the strided grids of
rendered images, which may be transposed.
-/
namespace ImageViews

variable {A : Arithmetic} {L : Likeness A} {p : A.Pixel} {k : A.Coeff} {q : A.Pixel} {K : Pace}
  {n m : Nat} {handle : Handle n} {handle' : Handle m}

/-- Sampling pixel by pixel, from cursors in step. -/
theorem Sampler.Cursors.paint {α β σ τ : Type} {S : σ → τ → Prop} {Alike : α → β → Prop}
    {s : Sampler σ α} {t : Sampler τ β} (cursors : Cursors K S Alike s t)
    (free : K.sel.step = 1 ∨ ∀ s t, S s t) (planes_eq : s.planes = K.sel.step * t.planes)
    (scales : handle.Scales K handle') (box : Box) :
    Carries (Both (K.Cells Alike) S) (Failure.Excused K.Excused) (s.paint handle box)
      (t.paint handle' box) fun _ _ => True := by
  apply Carries.bind (scales.accept box planes_eq)
  rintro _ _ ⟨-, planes⟩
  apply Carries.bind (.check (cursors.place_level box.x box.y))
  intro start start' level
  have scaled := cursors.scaled
  rw [← planes] at scaled
  refine Handle.fill_carries scales scaled free (fun place place' meets => ?_) level
  rw [planes] at meets
  exact cursors.read place place' meets

namespace Tiler

theorem record_carries {α β : Type} {Alike : α → β → Prop} (record record' : Record) :
    Carries (K.Painting Alike) (Failure.Excused K.Excused)
      (Paint.record record : Paint Log α n Unit) (Paint.record record' : Paint Log β m Unit)
      fun _ _ => True := by
  rintro ⟨cells, log⟩ ⟨cells', log'⟩ ⟨chosen, -⟩
  exact ⟨(), _, rfl, trivial, chosen, trivial⟩

section Convolve

variable {t : Tiler (L.Value p)} {t' : Tiler (A.Value p)} {Frame : Box → Prop}
  (h : InStep K L.Alike Frame t t') (capacity : K.Excused .capacity)
include h capacity

theorem InStep.windowsPatch {cols rows : Nat} (anchor : Anchor cols rows)
    {border : Option Border} (given : K.sel.step = 1 ∨ border ≠ none) (box : Box) :
    K.Rendering (windowsPatch (A := L.arithmetic) t anchor border box)
      (t'.windowsPatch anchor border box) fun patch patch' =>
        patch.image.Selected K L.Alike patch'.image ∧ patch.dx = patch'.dx ∧
          patch.dy = patch'.dy := by
  apply Carries.bind (.check (.same _))
  rintro source _ rfl
  have shown : K.Rendering (t.regionWith border (L.storage p) source)
      (t'.regionWith border (A.storage p) source) fun image image' =>
        image.Selected K L.Alike image' ∧ image'.planes = t'.planes := by
    cases border with
    | none => exact h.region (L.stores capacity p) (.inl (given.resolve_right fun h => h rfl))
    | some border => exact h.extend (L.stores capacity p) border source
  apply Carries.bind shown
  rintro image image' ⟨selected, -⟩
  apply Carries.check
  apply Check.Carries.bind (.same _)
  rintro dx _ rfl
  apply Check.Carries.bind (.same _)
  rintro dy _ rfl
  exact .ok ⟨selected, rfl, rfl⟩

theorem InStep.convolve (hq : A.product p k = some q) (kernel : Kernel (A.Factor k))
    (anchor : Anchor kernel.cols kernel.rows) {border : Option Border}
    (given : K.sel.step = 1 ∨ border ≠ none) (Frame : Box → Prop) :
    InStep K L.Alike Frame (convolve (A := L.arithmetic) t hq kernel anchor border)
      (t'.convolve hq kernel anchor border) where
  cols_eq := h.cols_eq
  rows_eq := h.rows_eq
  planes_eq := h.planes_eq
  planes_pos := h.planes_pos
  rasterize {n m handle handle' box} scales _ := by
    apply Carries.bind (scales.accept box h.planes_eq)
    intro _ _ _
    apply Carries.bind (record_carries _ _)
    intro _ _ _
    apply Carries.bind ((h.windowsPatch capacity anchor given box).render (K.Cells L.Alike))
    rintro patch patch' ⟨selected, dx, dy⟩
    rw [dx, dy, h.cols_eq, h.rows_eq]
    have source := (Sampler.image_inStep (S := fun (_ _ : Log) => True) selected).crop patch'.dx
      patch'.dy t'.cols t'.rows
    exact (Sampler.computed_cursors (source.convolveAt hq kernel anchor none)).paint
      (.inr fun _ _ => trivial) source.planes_eq scales box

end Convolve

section Passes

variable {grid : Strided (L.Value p)} {grid' : Strided (A.Value p)}

/-- A line has a first pixel. -/
theorem correlate1d_fails {s : Sampler Log (L.Value p)} (dead : s.Dead)
    (hq : A.product p k = some q) {factor : List (A.Factor k)} (taps : factor ≠ [])
    (place : s.addressing.Place) (log : Log) :
    Yields Lenient (Sampler.correlate1d (A := L.arithmetic) s hq factor place) log
      fun _ _ => False := by
  cases factor with
  | nil => exact absurd rfl taps
  | cons coeff coeffs =>
    apply Yields.bind
    exact (dead place log).mono fun _ _ => False.elim

theorem convolveRows_carries (h : grid.Selected K L.Alike grid') (hq : A.product p k = some q)
    {factor : List (A.Factor k)} (taps : factor ≠ []) (scales : handle.Scales K handle')
    (planes : handle'.planes = grid'.planes) :
    Carries (K.Painting L.Alike) (Failure.Excused K.Excused)
      (convolveRows (A := L.arithmetic) grid hq factor handle)
      (convolveRows grid' hq factor handle') fun _ _ => True := by
  unfold convolveRows
  rw [h.cols_eq, h.rows_eq, scales.cols_eq, scales.rows_eq]
  apply Carries.bind (.check (.same _))
  rintro read _ rfl
  apply Carries.bind (.check (.same _))
  rintro needed _ rfl
  apply Carries.bind (.check (.require id (.inr id)))
  rintro _ _ -
  apply Carries.bind (.check (.require id (.inr id)))
  rintro _ _ ⟨rows, -⟩
  rcases h.strides with scaled | ⟨several, ⟨none, planes'⟩, walkable⟩
  · have cursors := h.cursors (S := fun (_ _ : Log) => True) scaled
    rw [← planes] at scaled
    refine Handle.fill_carries scales scaled (.inr fun _ _ => trivial)
      (fun place place' meets => ?_) (Addressing.level_zero ..)
    rw [planes] at meets
    exact cursors.correlateRow hq factor.reverse meets (L.start_alike q)
  · have dead := Strided.dead_of_empty (σ := Log) none
    have some : 0 < handle.planes := by
      rw [scales.planes_eq, planes, ← h.planes_eq]
      exact planes'
    refine scales.fill_dead (K.room.resolve_left several) some
      (correlate1d_fails dead hq fun empty => taps (List.reverse_eq_nil_iff.1 empty)) _
      fun _ y hy => ?_
    have fits := walkable.fits (x := 0) (y := 0) (j := y + 1) (by omega) (by omega) (by omega)
    rwa [Int.zero_mul, Int.zero_mul, Int.add_zero] at fits

section Rendered

variable {source : Image (L.Value p)} {source' : Image (A.Value p)}
  (selected : source.Selected K L.Alike source') (scales : handle.Scales K handle')
  (planes : handle'.planes = source'.planes)
include selected scales

/-- Every pixel is multiplied by the coefficient that stands for an absent factor. -/
theorem scalePass_carries (hq : A.product p k = some q) :
    Carries (K.Painting L.Alike) (Failure.Excused K.Excused)
      (handle.fill .coordinates ({} : Position) fun (place : Position) => do
        let pixel ← source.fetch (Extent.ofCoordinate place.x) (Extent.ofCoordinate place.y)
          (Extent.ofCoordinate place.p)
        L.scale hq pixel (A.one k) : Paint Log (L.Value q) n Unit)
      (handle'.fill .coordinates ({} : Position) fun (place : Position) => do
        let pixel ← source'.fetch (Extent.ofCoordinate place.x) (Extent.ofCoordinate place.y)
          (Extent.ofCoordinate place.p)
        A.scale hq pixel (A.one k) : Paint Log (A.Value q) m Unit) fun _ _ => True := by
  have scaled : Addressing.Scaled K.sel handle'.planes .coordinates .coordinates := trivial
  refine Handle.fill_carries scales scaled (.inr fun _ _ => trivial) ?_ ⟨⟨rfl, rfl⟩, rfl, rfl⟩
  rintro (place : Position) (place' : Position) ⟨⟨x, y⟩, plane, -⟩
  simp only [x, y, plane]
  apply Carries.bind (.probe_check (selected.fetch _ _ _))
  intro pixel pixel' alike
  exact .probe_check (L.scale_alike hq (A.one k) K.Excused alike)

include planes

theorem rowPass_carries (hq : A.product p k = some q) {row : List (A.Factor k)} (taps : row ≠ []) :
    Carries (K.Painting L.Alike) (Failure.Excused K.Excused)
      ((do convolveRows (A := L.arithmetic) (← source.strided) hq row handle) :
        Paint Log (L.Value q) n Unit)
      ((do convolveRows (← source'.strided) hq row handle') : Paint Log (A.Value q) m Unit)
      fun _ _ => True := by
  apply Carries.bind (.check selected.strided)
  rintro grid grid' ⟨related, -, grid_planes⟩
  exact convolveRows_carries related hq taps scales (planes.trans grid_planes.symm)

theorem colPass_carries (hq : A.product p k = some q) {col : List (A.Factor k)} (taps : col ≠ []) :
    Carries (K.Painting L.Alike) (Failure.Excused K.Excused)
      ((do
        convolveRows (A := L.arithmetic) (← source.strided).transpose hq col handle.transpose) :
        Paint Log (L.Value q) n Unit)
      ((do convolveRows (← source'.strided).transpose hq col handle'.transpose) :
        Paint Log (A.Value q) m Unit) fun _ _ => True := by
  apply Carries.bind (.check selected.strided)
  rintro grid grid' ⟨related, -, grid_planes⟩
  exact convolveRows_carries related.transpose hq taps scales.transpose
    (planes.trans grid_planes.symm)

end Rendered

end Passes

section Separable

variable {t : Tiler (L.Value p)} {t' : Tiler (A.Value p)} {Frame : Box → Prop}
  (h : InStep K L.Alike Frame t t') (capacity : K.Excused .capacity)
include h capacity

theorem InStep.passes (hq : A.product p k = some q) (row col : List (A.Factor k))
    (anchor : Anchor (max 1 row.length) (max 1 col.length)) (border : Border)
    (scales : handle.Scales K handle') (planes : handle'.planes = t'.planes) (box : Box) :
    Carries (K.Painting L.Alike) (Failure.Excused K.Excused)
      (separablePasses (A := L.arithmetic) t hq row col anchor border handle box)
      (t'.separablePasses hq row col anchor border handle' box) fun _ _ => True := by
  unfold separablePasses
  split
  · apply Carries.bind ((h.extend (L.stores capacity p) border box).render (K.Cells L.Alike))
    rintro source source' ⟨selected, -⟩
    exact scalePass_carries selected scales hq
  next several =>
  apply Carries.bind (.check (.same _))
  rintro sourceBox _ rfl
  apply Carries.bind ((h.extend (L.stores capacity p) border sourceBox).render (K.Cells L.Alike))
  rintro source source' ⟨selected, source_planes⟩
  rw [Bool.and_eq_true, List.isEmpty_iff, List.isEmpty_iff] at several
  split
  next none =>
    exact rowPass_carries selected scales (planes.trans source_planes.symm) hq fun empty =>
      several ⟨empty, List.isEmpty_iff.1 none⟩
  next some =>
  have taps : col ≠ [] := fun empty => some (List.isEmpty_iff.2 empty)
  split
  · exact colPass_carries selected scales (planes.trans source_planes.symm) hq taps
  next some' =>
  refine Carries.bind (Carries.render (Image.render_carries (L.stores capacity q) h.planes_eq
    fun _ _ scales planes => ?_) (K.Cells L.Alike)) ?_
  · exact rowPass_carries selected scales (planes.trans source_planes.symm) hq fun empty =>
      some' (List.isEmpty_iff.2 empty)
  rintro lines lines' ⟨selected, lines_planes⟩
  exact colPass_carries selected scales (planes.trans lines_planes.symm) (A.product_closed hq) taps

theorem InStep.separable (hq : A.product p k = some q) (row col : List (A.Factor k))
    (anchor : Anchor (max 1 row.length) (max 1 col.length)) (border : Border)
    (Frame : Box → Prop) :
    InStep K L.Alike Frame (separable (A := L.arithmetic) t hq row col anchor border)
      (t'.separable hq row col anchor border) where
  cols_eq := h.cols_eq
  rows_eq := h.rows_eq
  planes_eq := h.planes_eq
  planes_pos := h.planes_pos
  rasterize {n m handle handle' box} scales _ := by
    apply Carries.bind (scales.accept box h.planes_eq)
    rintro _ _ ⟨-, planes⟩
    apply Carries.bind (record_carries _ _)
    intro _ _ _
    exact h.passes capacity hq row col anchor border scales planes box

end Separable

end Tiler

end ImageViews
