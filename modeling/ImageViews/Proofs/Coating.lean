import ImageViews.Proofs.Painting
import ImageViews.View.Evaluate

/-!
# What painting changes

Painting a box reads nothing of the buffer it paints into. Whatever the buffer holds, the outcome is
the same, the same positions of the handle get the same pixels, and every other cell stays as it is.
If the painting succeeds, no position of the handle was left out. This is so for every view and
every box, whether the pixels that are read are there or not.
-/
namespace ImageViews

variable {σ α β γ : Type} {n : Nat}

namespace Handle

variable {handle : Handle n} {S T : Nat → Nat → Nat → Prop}

/-- Through the handle the evaluation paints pixels that do not depend on the cells, if it succeeds
those of all positions in `S`. Nor do its outcome and the state it leaves depend on the cells. -/
def Coats (handle : Handle n) (S : Nat → Nat → Nat → Prop) (m : Paint σ α n β) : Prop :=
  ∀ s, ∃ outcome s' T pixel,
    (outcome.isOk = true → ∀ x y p, handle.Inside x y p → S x y p → T x y p) ∧
    ∀ cells, ∃ cells', m.run.run (cells, s) = (outcome, (cells', s')) ∧
      handle.Painted T pixel cells cells'

namespace Coats

/-- An evaluation that leaves the cells alone, whatever they are. -/
theorem of_run {m : Paint σ α n β}
    (h : ∀ s, ∃ outcome s', ∀ cells, m.run.run (cells, s) = (outcome, (cells, s'))) :
    handle.Coats (fun _ _ _ => False) m := by
  intro s
  obtain ⟨outcome, s', run⟩ := h s
  exact ⟨outcome, s', fun _ _ _ => False, fun _ _ _ => .error .outOfBounds,
    fun _ _ _ _ _ => id, fun cells => ⟨cells, run cells, .nothing fun _ _ _ => id⟩⟩

theorem mono {m : Paint σ α n β} (h : handle.Coats S m)
    (hT : ∀ x y p, handle.Inside x y p → T x y p → S x y p) : handle.Coats T m := by
  intro s
  obtain ⟨outcome, s', painted, pixel, covers, run⟩ := h s
  exact ⟨outcome, s', painted, pixel, fun ok x y p inside h =>
    covers ok x y p inside (hT x y p inside h), run⟩

theorem pure (b : β) : handle.Coats (fun _ _ _ => False) (pure b : Paint σ α n β) :=
  of_run fun s => ⟨.ok b, s, fun _ => rfl⟩

theorem check (c : Check β) : handle.Coats (fun _ _ _ => False) (liftM c : Paint σ α n β) :=
  of_run fun s => ⟨c.mapError .fault, s, fun _ => by cases c <;> rfl⟩

theorem accept (handle' : Handle n) (box : Box) (planes : Nat) :
    handle.Coats (fun _ _ _ => False)
      (liftM (handle'.accept box planes) : Paint σ α n Unit) :=
  of_run fun s => ⟨(handle'.accept box planes).mapError .error, s, fun _ => rfl⟩

theorem probe (probe : Probe σ β) :
    handle.Coats (fun _ _ _ => False) (liftM probe : Paint σ α n β) :=
  of_run fun s => ⟨_, _, fun cells => run_probe probe cells s⟩

theorem render (render : Render β) :
    handle.Coats (fun _ _ _ => False) (liftM render : Paint Log α n β) :=
  of_run fun log => ⟨_, _, fun cells => run_render render cells log⟩

theorem record (record : Record) :
    handle.Coats (fun _ _ _ => False) (Paint.record record : Paint Log α n Unit) :=
  of_run fun log => ⟨.ok (), log ++ [record], fun _ => rfl⟩

theorem bind (hs : handle.Sound) {m : Paint σ α n β} {f : β → Paint σ α n γ}
    (h : handle.Coats S m) (hf : ∀ b, handle.Coats T (f b)) :
    handle.Coats (fun x y p => S x y p ∨ T x y p) (m >>= f) := by
  classical
  intro s
  obtain ⟨outcome, s', painted, pixel, covers, run⟩ := h s
  cases outcome with
  | error cause =>
    refine ⟨.error cause, s', painted, pixel, nofun, fun cells => ?_⟩
    obtain ⟨cells', hrun, h⟩ := run cells
    exact ⟨cells', by rw [run_bind, hrun], h⟩
  | ok b =>
    obtain ⟨outcome', s'', painted', pixel', covers', run'⟩ := hf b s'
    refine ⟨outcome', s'', fun x y p => painted x y p ∨ painted' x y p,
      fun x y p => if painted' x y p then pixel' x y p else pixel x y p, ?_, fun cells => ?_⟩
    · exact fun ok x y p inside => Or.imp (covers rfl x y p inside) (covers' ok x y p inside)
    · obtain ⟨cells', hrun, h⟩ := run cells
      obtain ⟨cells'', hrun', h'⟩ := run' cells'
      exact ⟨cells'', by rw [run_bind, hrun]; exact hrun', h.overlaid hs h'⟩

/-- An evaluation after one that leaves the cells alone. -/
theorem after (hs : handle.Sound) {m : Paint σ α n β} {f : β → Paint σ α n γ}
    (h : handle.Coats (fun _ _ _ => False) m) (hf : ∀ b, handle.Coats S (f b)) :
    handle.Coats S (m >>= f) :=
  (h.bind hs hf).mono fun _ _ _ _ => .inr

/-- What the visits of a sweep paint together. -/
theorem sweep (hs : handle.Sound) {π : Type} {step : π → Check π}
    {visit : Nat → π → β → Paint σ α n β} {S : Nat → Nat → Nat → Nat → Prop} (k i : Nat)
    (hvisit : ∀ j, i ≤ j → j < i + k → ∀ place acc, handle.Coats (S j) (visit j place acc))
    (place : π) (acc : β) :
    handle.Coats (fun x y p => ∃ j, (i ≤ j ∧ j < i + k) ∧ S j x y p)
      (ImageViews.sweep step visit k i place acc) := by
  induction k generalizing i place acc with
  | zero =>
    refine (pure acc).mono ?_
    rintro x y p - ⟨j, range, -⟩
    omega
  | succ k ih =>
    refine ((hvisit i (Nat.le_refl _) (by omega) place acc).bind hs fun acc' =>
      (check (step place)).after hs fun place' =>
        ih (i + 1) (fun j low high => hvisit j (by omega) (by omega)) place' acc').mono ?_
    rintro x y p - ⟨j, range, painted⟩
    by_cases first : j = i
    · subst first
      exact .inl painted
    · exact .inr ⟨j, ⟨by omega, by omega⟩, painted⟩

theorem set (hs : handle.Sound) {x y p : Nat} (inside : handle.Inside x y p) (a : α) :
    handle.Coats (fun x' y' p' => x' = x ∧ y' = y ∧ p' = p)
      (handle.set x y p a : Paint σ α n Unit) := by
  intro s
  refine ⟨.ok (), s, fun x' y' p' => x' = x ∧ y' = y ∧ p' = p, fun _ _ _ => .ok a,
    fun _ _ _ _ _ => id, fun cells => ?_⟩
  have untouched : handle.Painted (fun _ _ _ => False) (fun _ _ _ => .ok a) cells cells :=
    .nothing fun _ _ _ => id
  refine ⟨_, ?_, (untouched.set hs inside rfl).congr fun _ _ _ _ => by simp⟩
  unfold Handle.set
  rw [hs.cell_eq inside]
  rfl

/-- Painting the transposed handle. -/
theorem transpose {m : Paint σ α n β} (h : handle.transpose.Coats S m) :
    handle.Coats (fun x y p => S y x p) m := by
  intro s
  obtain ⟨outcome, s', painted, pixel, covers, run⟩ := h s
  refine ⟨outcome, s', fun x y p => painted y x p, fun x y p => pixel y x p, ?_, fun cells => ?_⟩
  · exact fun ok x y p inside => covers ok y x p (inside_transpose.2 inside)
  · obtain ⟨cells', hrun, h⟩ := run cells
    exact ⟨cells', hrun, h.turned⟩

end Coats

section Fill

variable {addressing : Addressing} (start : addressing.Place)
  (value : addressing.Place → Probe σ α)

theorem fillPlanes_coats (hs : handle.Sound) {x y : Nat} (hx : x < handle.cols)
    (hy : y < handle.rows) (place : addressing.Place) :
    handle.Coats (fun x' y' _ => x' = x ∧ y' = y)
      (handle.fillPlanes addressing value x y place) := by
  refine (Coats.sweep hs _ _ (fun p _ hp place _ => (Coats.probe (value place)).after hs fun a =>
    .set hs ⟨hx, hy, by omega⟩ a) _ _).mono ?_
  intro x' y' p inside here
  have range : p < 0 + handle.planes := by
    have := inside.2.2
    omega
  exact ⟨p, ⟨Nat.zero_le p, range⟩, here.1, here.2, rfl⟩

theorem fillRow_coats (hs : handle.Sound) {y : Nat} (hy : y < handle.rows)
    (place : addressing.Place) :
    handle.Coats (fun _ y' _ => y' = y) (handle.fillRow addressing value y place) := by
  refine (Coats.sweep hs _ _ (fun x _ hx place _ =>
    fillPlanes_coats value hs (by omega) hy place) _ _).mono ?_
  intro x y' p inside here
  have range : x < 0 + handle.cols := by
    have := inside.1
    omega
  exact ⟨x, ⟨Nat.zero_le x, range⟩, rfl, here⟩

/-- Filling paints every position. -/
theorem fill_coats (hs : handle.Sound) :
    handle.Coats handle.Inside (handle.fill addressing start value) := by
  refine (Coats.sweep hs _ _ (fun y _ hy place _ =>
    fillRow_coats value hs (by omega) place) _ _).mono ?_
  intro x y p inside _
  have range : y < 0 + handle.rows := by
    have := inside.2.1
    omega
  exact ⟨y, ⟨Nat.zero_le y, range⟩, rfl⟩

end Fill

end Handle

/-- Painting a box pixel by pixel paints the whole handle. -/
theorem Sampler.paint_coats (s : Sampler σ α) {handle : Handle n} (hs : handle.Sound) (box : Box) :
    handle.Coats handle.Inside (s.paint handle box) := by
  apply (Handle.Coats.accept handle box s.planes).after hs
  intro _
  apply (Handle.Coats.check (s.place box.x box.y 0)).after hs
  intro start
  exact handle.fill_coats start s.read hs

namespace Tiler

/-- Painting a box paints the whole handle. -/
def Coating (t : Tiler α) : Prop :=
  ∀ {n : Nat} (handle : Handle n), handle.Sound → ∀ box,
    handle.Coats handle.Inside (t.rasterize handle box)

theorem strided_coating (grid : Strided α) : (strided grid).Coating :=
  fun _ hs box => Sampler.paint_coats (.strided grid) hs box

theorem image_coating (image : Image α) : (Tiler.image image).Coating := by
  intro n handle hs box
  apply (Handle.Coats.check image.strided).after hs
  intro grid
  exact strided_coating grid handle hs box

variable {t : Tiler α}

theorem Coating.crop (h : t.Coating) (x0 y0 : Int) (cols rows : Nat) :
    (t.crop x0 y0 cols rows).Coating := by
  intro n handle hs box
  apply (Handle.Coats.check (box.translate x0 y0)).after hs
  intro moved
  exact h handle hs moved

theorem extended_coating (t : Tiler α) (border : Border) (storage : Storage α) :
    (t.extended border storage).Coating := by
  intro n handle hs box
  apply (Handle.Coats.accept handle box t.planes).after hs
  intro _
  apply (Handle.Coats.render (t.extend border storage box)).after hs
  intro image
  exact image_coating image handle hs _

section Filters

variable {A : Arithmetic} {p : A.Pixel} {k : A.Coeff} {q : A.Pixel}

theorem convolve_coating (t : Tiler (A.Value p)) (h : A.product p k = some q)
    (kernel : Kernel (A.Factor k)) (anchor : Anchor kernel.cols kernel.rows)
    (border : Option Border) : (t.convolve h kernel anchor border).Coating := by
  intro n handle hs box
  apply (Handle.Coats.accept handle box t.planes).after hs
  intro _
  apply (Handle.Coats.record _).after hs
  intro _
  apply (Handle.Coats.render (t.windowsPatch anchor border box)).after hs
  intro patch
  exact Sampler.paint_coats _ hs box

theorem convolveRows_coats (grid : Strided (A.Value p)) (h : A.product p k = some q)
    (factor : List (A.Factor k)) {handle : Handle n} (hs : handle.Sound) :
    handle.Coats handle.Inside (convolveRows grid h factor handle) := by
  apply (Handle.Coats.check _).after hs
  intro read
  apply (Handle.Coats.check _).after hs
  intro needed
  apply (Handle.Coats.check _).after hs
  intro _
  apply (Handle.Coats.check _).after hs
  intro _
  exact handle.fill_coats _ _ hs

/-- The columns are the rows of the transposed handle. -/
theorem convolveCols_coats (grid : Strided (A.Value p)) (h : A.product p k = some q)
    (factor : List (A.Factor k)) {handle : Handle n} (hs : handle.Sound) :
    handle.Coats handle.Inside (convolveRows grid h factor handle.transpose) :=
  (convolveRows_coats grid h factor hs.transpose).transpose.mono
    fun _ _ _ _ => Handle.inside_transpose.2

theorem separablePasses_coats (t : Tiler (A.Value p)) (h : A.product p k = some q)
    (row col : List (A.Factor k)) (anchor : Anchor (max 1 row.length) (max 1 col.length))
    (border : Border) {handle : Handle n} (hs : handle.Sound) (box : Box) :
    handle.Coats handle.Inside (t.separablePasses h row col anchor border handle box) := by
  unfold separablePasses
  split
  · apply (Handle.Coats.render _).after hs
    intro source
    exact handle.fill_coats _ _ hs
  apply (Handle.Coats.check _).after hs
  intro sourceBox
  apply (Handle.Coats.render _).after hs
  intro source
  split
  · apply (Handle.Coats.check _).after hs
    intro grid
    exact convolveRows_coats grid h row hs
  split
  · apply (Handle.Coats.check _).after hs
    intro grid
    exact convolveCols_coats _ h col hs
  · apply (Handle.Coats.render _).after hs
    intro lines
    apply (Handle.Coats.check _).after hs
    intro grid
    exact convolveCols_coats _ _ col hs

theorem separable_coating (t : Tiler (A.Value p)) (h : A.product p k = some q)
    (row col : List (A.Factor k)) (anchor : Anchor (max 1 row.length) (max 1 col.length))
    (border : Border) : (t.separable h row col anchor border).Coating := by
  intro n handle hs box
  apply (Handle.Coats.accept handle box t.planes).after hs
  intro _
  apply (Handle.Coats.record _).after hs
  intro _
  exact separablePasses_coats t h row col anchor border hs box

end Filters

end Tiler

/-- Every view paints the whole handle. -/
theorem View.tiler_coating {A : Arithmetic} {p : A.Pixel} (v : View A p) : v.tiler.Coating := by
  induction v with
  | image pixels => exact Tiler.image_coating pixels
  | strided grid => exact Tiler.strided_coating grid
  | crop child x0 y0 cols rows ih => exact ih.crop x0 y0 cols rows
  | extend child border => exact child.tiler.extended_coating border _
  | convolve child h kernel anchor border =>
    exact child.tiler.convolve_coating h kernel anchor border
  | separable child h row col anchor border =>
    exact child.tiler.separable_coating h row col anchor border

end ImageViews
