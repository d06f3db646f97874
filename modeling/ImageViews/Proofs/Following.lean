import ImageViews.Proofs.Pacing
import ImageViews.Tiler.Separable

/-!
# Tilers in step

Two tilers, the second one of the selected planes of the first, are in step when they paint boxes
in step. Boxes, windows and index maps are computed alike on both sides, so whatever is put together
from tilers in step is in step. A tiler is asked for a box without pixels only by its caller; how
far that may lie outside is left to a frame.
-/
namespace ImageViews

variable {α β : Type} {K : Pace} {Alike : α → β → Prop}

/-- Renderings whose results are compared and whose records are not. -/
abbrev Pace.Rendering (K : Pace) {γ δ : Type} (render : Render γ) (render' : Render δ)
    (Q : γ → δ → Prop) : Prop :=
  Carries (fun _ _ => True) (Failure.Excused K.Excused) render render' Q

/-- Whatever a rendered image shows, it has the cells of its extent. -/
theorem Image.render_cells {storage : Storage α} {cols rows planes : Nat}
    (paint : Handle (cols * rows * planes) → Paint Log α (cols * rows * planes) Unit) (log : Log) :
    Yields (fun _ => True) (render storage cols rows planes paint) log fun image _ =>
      image.cells.size = cols * rows * planes := by
  have any {γ : Type} (m : Render γ) (log : Log) :
      Yields (fun _ => True) m log fun _ _ => True := by
    unfold Yields
    split <;> trivial
  apply Yields.bind
  apply (any _ log).mono
  intro _ log _
  apply Yields.bind
  apply (any _ log).mono
  intro whole log _
  apply Yields.bind
  apply (any _ log).mono
  intro cells log _
  exact Yields.pure cells.size_toArray

/-- An image with cells is not generated from pixels that all fault. -/
theorem Image.generate_fails {bytes cols rows planes : Nat} (cells : 0 < cols * rows * planes)
    {f : Nat → Nat → Nat → Check α} (hf : ∀ x y p a, f x y p ≠ .ok a) :
    (generate bytes cols rows planes f).Yields Lenient fun _ => False := by
  apply Check.Yields.bind_any
  intro _
  rw [tabulatePixels_eq]
  apply Check.Yields.bind
  apply (tabulate_yields fun _ _ _ _ => trivial).mono
  intro values shown
  have first := shown 0 cells
  rw [fetchCell_toArray cells] at first
  exact hf _ _ _ _ first.symm

namespace Tiler

/-- No pixel is picked from an image without cells. -/
theorem pick_empty {pixels : Image α} {xs ys : Array Nat} {x0 y0 x y p : Nat}
    (h : pixels.cells.size = 0) (a : α) : pick pixels xs ys x0 y0 x y p ≠ .ok a := by
  have picked : (pick pixels xs ys x0 y0 x y p).Yields Lenient fun _ => False :=
    .bind_any fun _ => .bind_any fun column => .bind_any fun _ => .bind_any fun row =>
      .of_tolerable (fun _ _ => trivial) fun a => Image.fetch_empty h a
  exact fun ha => picked.value ha

theorem region_cells (t : Tiler α) (storage : Storage α) (box : Box) (log : Log) :
    Yields (fun _ => True) (t.region storage box) log fun image _ =>
      image.cells.size = box.width * box.height * t.planes :=
  Image.render_cells _ log

/-- The second tiler paints the selected planes of the first. With several planes a step there are
planes, and boxes without pixels lie in the frame. -/
structure InStep (K : Pace) (Alike : α → β → Prop) (Frame : Box → Prop) (t : Tiler α)
    (t' : Tiler β) : Prop where
  cols_eq : t.cols = t'.cols
  rows_eq : t.rows = t'.rows
  planes_eq : t.planes = K.sel.step * t'.planes
  planes_pos : K.sel.step = 1 ∨ 0 < t.planes
  rasterize : ∀ {n m : Nat} {handle : Handle n} {handle' : Handle m} {box : Box},
    handle.Scales K handle' → (K.sel.step = 1 ∨ (box.IsEmpty → Frame box)) →
    Carries (K.Painting Alike) (Failure.Excused K.Excused) (t.rasterize handle box)
      (t'.rasterize handle' box) fun _ _ => True

variable {n m : Nat} {handle : Handle n} {handle' : Handle m} {t : Tiler α} {t' : Tiler β}
  {Frame : Box → Prop}

theorem strided_inStep {grid : Strided α} {grid' : Strided β} (h : grid.Selected K Alike grid')
    (planes : K.sel.step = 1 ∨ 0 < grid.planes) :
    InStep K Alike (·.Within (.ofExtent grid'.cols grid'.rows)) (strided grid)
      (strided grid') where
  cols_eq := h.cols_eq
  rows_eq := h.rows_eq
  planes_eq := h.planes_eq
  planes_pos := planes
  rasterize scales frame := h.paint scales frame

theorem image_inStep {image : Image α} {image' : Image β} (h : image.Selected K Alike image')
    (planes : K.sel.step = 1 ∨ 0 < image.planes) :
    InStep K Alike (·.Within (.ofExtent image'.cols image'.rows)) (Tiler.image image)
      (Tiler.image image') where
  cols_eq := h.cols_eq
  rows_eq := h.rows_eq
  planes_eq := h.planes_eq
  planes_pos := planes
  rasterize {n m handle handle' box} scales frame := by
    apply Carries.bind (.check h.strided)
    rintro grid grid' ⟨selected, ⟨cols, rows⟩, -⟩
    exact selected.paint scales (cols ▸ rows ▸ frame)

namespace InStep

variable (h : InStep K Alike Frame t t')
include h

theorem bounds_eq : t.bounds = t'.bounds := by
  unfold Tiler.bounds
  rw [h.cols_eq, h.rows_eq]

theorem crop (x0 y0 : Int) (cols rows : Nat) :
    InStep K Alike (fun box => Frame { box with x := box.x + x0, y := box.y + y0 })
      (t.crop x0 y0 cols rows) (t'.crop x0 y0 cols rows) where
  cols_eq := rfl
  rows_eq := rfl
  planes_eq := h.planes_eq
  planes_pos := h.planes_pos
  rasterize {n m handle handle' box} scales frame := by
    have moved : (box.translate x0 y0).Yields Lenient _ := box.translate_yields (.inl trivial)
    apply Carries.bind (.check ((Check.Carries.same _).mono fun _ _ ok _ same =>
      And.intro same (moved.value ok)))
    rintro _ _ ⟨rfl, rfl⟩
    exact h.rasterize scales frame

section Images

variable {storage : Storage α} {storage' : Storage β} (stores : K.Stores Alike storage storage')
  {box : Box}
include stores

theorem region (frame : K.sel.step = 1 ∨ (box.IsEmpty → Frame box)) :
    K.Rendering (t.region storage box) (t'.region storage' box) fun image image' =>
      image.Selected K Alike image' ∧ image'.planes = t'.planes :=
  Image.render_carries stores h.planes_eq fun _ _ scales _ => h.rasterize scales frame

omit stores in
theorem paintPart (scales : handle.Scales K handle') {part : Box} (nonempty : ¬part.IsEmpty) :
    Carries (K.Painting Alike) (Failure.Excused K.Excused) (t.paintPart box part handle)
      (t'.paintPart box part handle') fun _ _ => True := by
  apply Carries.bind (.check (.same _))
  rintro left _ rfl
  apply Carries.bind (.check (.same _))
  rintro top _ rfl
  apply Carries.bind (.check (scales.window ..))
  intro window window' scales
  exact h.rasterize scales (.inr fun empty => absurd empty nonempty)

theorem padded (box : Box) :
    K.Rendering (t.padded storage box) (t'.padded storage' box) fun image image' =>
      image.Selected K Alike image' ∧ image'.planes = t'.planes := by
  have common : (box.intersect t'.bounds).Yields Lenient fun inner =>
      ∀ part, inner = some part → ¬part.IsEmpty := by
    refine .bind_any fun _ => .bind_any fun _ => .bind_any fun part => .ok ?_
    intro part' same
    split at same
    · cases same
    next nonempty =>
      obtain rfl := Option.some.inj same
      exact nonempty
  unfold Tiler.padded
  rw [h.bounds_eq]
  apply Carries.bind (.check ((Check.Carries.same _).mono fun _ _ ok _ same =>
    And.intro same (common.value ok)))
  rintro (_ | inner) _ ⟨rfl, nonempty⟩
  · exact .check (Image.blank_carries stores h.planes_eq)
  · exact Image.render_carries stores h.planes_eq fun _ _ scales _ =>
      h.paintPart scales (nonempty inner rfl)

theorem mapped (border : Border) (nonempty : ¬box.IsEmpty) :
    K.Rendering (t.mapped border storage box) (t'.mapped border storage' box)
      fun image image' => image.Selected K Alike image' ∧ image'.planes = t'.planes := by
  unfold Tiler.mapped
  rw [h.cols_eq, h.rows_eq]
  apply Carries.bind (.check (.same _))
  rintro xs _ rfl
  apply Carries.bind (.check (.same _))
  rintro ys _ rfl
  apply Carries.bind (.check (.same _))
  rintro source _ rfl
  by_cases none : K.sel.step ≠ 1 ∧ source.IsEmpty
  · -- signed words put the last index before the first one, and there is nothing to pick from
    have planes := h.planes_pos.resolve_left none.1
    have cells : 0 < box.width * box.height * t.planes := by
      unfold Box.IsEmpty at nonempty
      exact Nat.mul_pos (Nat.mul_pos (by omega) (by omega)) planes
    apply Carries.of_fails (Failure.Excused.all (K.room.resolve_left none.1))
    intro log _ _
    apply Yields.bind
    apply (t.region_cells storage source log).mono
    intro pixels log size
    apply Yields.weaken (E := Failure.Tolerated Lenient) _ fun _ _ => trivial
    apply Yields.check
    apply Image.generate_fails cells
    intro x y p a
    exact pick_empty (by rcases none.2 with zero | zero <;> simp [size, zero]) a
  · have frame : K.sel.step = 1 ∨ (source.IsEmpty → Frame source) := by
      by_cases one : K.sel.step = 1
      · exact .inl one
      · exact .inr fun empty => absurd ⟨one, empty⟩ none
    apply Carries.bind (h.region stores frame)
    rintro pixels pixels' ⟨selected, -⟩
    apply Carries.check
    apply Image.generate_carries stores h.planes_eq
    intro x y i
    apply Check.Carries.bind (.same _)
    rintro column _ rfl
    apply Check.Carries.bind (.same _)
    rintro _ _ rfl
    apply Check.Carries.bind (.same _)
    rintro row _ rfl
    apply Check.Carries.bind (.same _)
    rintro _ _ rfl
    exact selected.fetch _ _ i

theorem extend (border : Border) (box : Box) :
    K.Rendering (t.extend border storage box) (t'.extend border storage' box)
      fun image image' => image.Selected K Alike image' ∧ image'.planes = t'.planes := by
  unfold Tiler.extend
  rw [h.bounds_eq]
  by_cases empty : box.IsEmpty
  · rw [if_pos empty, if_pos empty]
    exact .check (Image.blank_carries stores h.planes_eq)
  rw [if_neg empty, if_neg empty]
  apply Carries.bind (.check (.same _))
  rintro inside _ rfl
  split
  · exact h.region stores (.inr fun none => absurd none empty)
  split
  · exact h.padded stores box
  · exact h.mapped stores border empty

theorem extended (border : Border) (Frame : Box → Prop) :
    InStep K Alike Frame (t.extended border storage) (t'.extended border storage') where
  cols_eq := h.cols_eq
  rows_eq := h.rows_eq
  planes_eq := h.planes_eq
  planes_pos := h.planes_pos
  rasterize {n m handle handle' box} scales _ := by
    apply Carries.bind (scales.accept box h.planes_eq)
    intro _ _ _
    apply Carries.bind ((h.extend stores border box).render (K.Cells Alike))
    rintro image image' ⟨selected, planes⟩
    have planes_pos : K.sel.step = 1 ∨ 0 < image.planes := by
      rw [selected.planes_eq, planes, ← h.planes_eq]
      exact h.planes_pos
    rw [selected.cols_eq, selected.rows_eq]
    exact (image_inStep selected planes_pos).rasterize scales (.inr fun _ => .refl)

end Images

end InStep

end Tiler

end ImageViews
