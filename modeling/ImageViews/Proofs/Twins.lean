import ImageViews.Proofs.Filtering
import ImageViews.Proofs.Lookup

/-!
# Views in step

Two views of one shape, with stored pixels in step at their leaves, are in step as a whole: point
access and the evaluation of boxes both carry over from the one to the other. The kernels that point
access keeps may have been built on one side and not yet on the other.
-/
namespace ImageViews

/-- Both trails keep the kernels that they should. -/
def Kept {μ ν : Type} (V : μ → Prop) (V' : ν → Prop) (s : Trail μ) (t : Trail ν) : Prop :=
  V s.memo ∧ V' t.memo

namespace Sampler

section Slots

variable {κ κ' μ ν α β : Type} {K : Pace} {S : Trail μ → Trail ν → Prop}
  {S' : Trail (κ × μ) → Trail (κ' × ν) → Prop}

/-- Related trails with one more slot each have related rests, and stay related whatever related
trails become of the rests. -/
def Frames (S : Trail μ → Trail ν → Prop) (S' : Trail (κ × μ) → Trail (κ' × ν) → Prop) : Prop :=
  ∀ s t, S' s t →
    S { memo := s.memo.2, log := s.log } { memo := t.memo.2, log := t.log } ∧ ∀ rest rest',
      S rest rest' → S' { memo := (s.memo.1, rest.memo), log := rest.log }
        { memo := (t.memo.1, rest'.memo), log := rest'.log }

theorem besideSlot_carries (frames : Frames S S') {probe : Probe (Trail μ) α}
    {probe' : Probe (Trail ν) β} {Q : α → β → Prop} (h : Carries S K.Excused probe probe' Q) :
    Carries S' K.Excused (probe.besideSlot (ν := κ)) (probe'.besideSlot (ν := κ')) Q := by
  intro s t related
  obtain ⟨rests, back⟩ := frames s t related
  have outcome := h _ _ rests
  rw [run_besideSlot, run_besideSlot]
  rcases run : probe.run.run { memo := s.memo.2, log := s.log } with ⟨fault | a, rest⟩ <;>
    rw [run] at outcome
  · apply outcome.imp_right
    rintro ⟨rest', run', states⟩
    rw [run']
    exact ⟨_, rfl, back rest rest' states⟩
  · obtain ⟨b, rest', run', alike, states⟩ := outcome
    rw [run']
    exact ⟨b, _, rfl, alike, back rest rest' states⟩

theorem InStep.besideSlot (frames : Frames S S') {Alike : α → β → Prop} {s : Sampler (Trail μ) α}
    {t : Sampler (Trail ν) β} (h : InStep K S Alike s t) :
    InStep K S' Alike (s.besideSlot (ν := κ)) (t.besideSlot (ν := κ')) where
  cols_eq := h.cols_eq
  rows_eq := h.rows_eq
  planes_eq := h.planes_eq
  get x y _ names := besideSlot_carries frames (h.get x y names)
  cursors := by
    refine h.cursors.imp (fun cursors => ⟨cursors.scaled, cursors.origin, fun _ _ meets =>
      besideSlot_carries frames (cursors.read _ _ meets)⟩) fun ⟨tolerant, dead⟩ => ⟨tolerant, ?_⟩
    intro place st
    refine (besideSlot_yields (Q := fun _ => True) (I := fun _ => True) (R := fun _ => False)
      trivial ?_).mono fun _ _ impossible => impossible.2
    exact (dead place _).mono fun _ _ => False.elim

end Slots

variable {A : Arithmetic} {L : Likeness A} {p : A.Pixel} {k : A.Coeff} {q : A.Pixel} {K : Pace}
  {μ ν : Type} {V : μ → Prop} {V' : ν → Prop} {row col : List (A.Factor k)}

/-- Convolutions of samplers in step, with kernels that are got in step. -/
theorem InStep.convolveBy {σ τ : Type} {S : σ → τ → Prop} {s : Sampler σ (L.Value p)}
    {t : Sampler τ (A.Value p)} (h : InStep K S L.Alike s t)
    {dense : Probe σ (Kernel (A.Factor k))} {dense' : Probe τ (Kernel (A.Factor k))}
    (same : Carries S K.Excused dense dense' Eq) (hq : A.product p k = some q) {cols rows : Nat}
    (anchor : Anchor cols rows) (border : Border) :
    InStep K S L.Alike
      (computed s.cols s.rows s.planes fun x y plane => do
        let kernel ← dense
        Sampler.convolveAt (A := L.arithmetic) s hq kernel anchor (some border) x y plane)
      (computed t.cols t.rows t.planes fun x y plane => do
        let kernel ← dense'
        t.convolveAt hq kernel anchor (some border) x y plane) := by
  rw [h.cols_eq, h.rows_eq]
  refine computed_inStep (fun x y i names => ?_) h.planes_eq
  apply Carries.bind same
  rintro kernel _ rfl
  exact h.convolveAt hq kernel anchor (some border) x y names

/-- The kernel of a separable filter is the outer product of its factors, built now or before. -/
theorem outerKernel_run {trail : Trail (Option (Kernel (A.Factor k)) × μ)}
    (keeps : KeepsOuter row col trail.memo.1) :
    ∃ slot log, (outerKernel row col).run.run trail =
        (Kernel.outer (A.one k) A.times row col, { memo := (slot, trail.memo.2), log }) ∧
      KeepsOuter row col slot := by
  obtain ⟨⟨_ | kernel, memo⟩, log⟩ := trail
  · unfold outerKernel
    simp only [run_bind]
    cases outer : Kernel.outer (A.one k) A.times row col with
    | error fault => exact ⟨none, _, rfl, keeps⟩
    | ok kernel =>
      refine ⟨some kernel, _, rfl, ?_⟩
      rintro _ ⟨⟩
      exact outer
  · refine ⟨some kernel, log, ?_, keeps⟩
    rw [keeps kernel rfl]
    rfl

theorem outerKernel_carries :
    Carries (Kept (fun memo => KeepsOuter row col memo.1 ∧ V memo.2)
        fun memo => KeepsOuter row col memo.1 ∧ V' memo.2) K.Excused
      (outerKernel (A := L.arithmetic) (k := k) row col) (outerKernel row col) Eq := by
  rintro s t ⟨⟨outer, rest⟩, outer', rest'⟩
  obtain ⟨slot, log, run, keeps⟩ := outerKernel_run (A := L.arithmetic) (k := k) outer
  obtain ⟨slot', log', run', keeps'⟩ := outerKernel_run outer'
  have same : Kernel.outer (L.arithmetic.one k) L.arithmetic.times row col =
      Kernel.outer (A.one k) A.times row col := rfl
  rw [run, run', same]
  cases Kernel.outer (A.one k) A.times row col with
  | ok kernel => exact ⟨kernel, _, rfl, rfl, ⟨keeps, rest⟩, keeps', rest'⟩
  | error fault => exact .inr ⟨_, rfl, ⟨keeps, rest⟩, keeps', rest'⟩

theorem kept_frames : Frames (Kept V V')
    (Kept (fun memo => KeepsOuter row col memo.1 ∧ V memo.2)
      fun memo => KeepsOuter row col memo.1 ∧ V' memo.2) :=
  fun _ _ ⟨⟨outer, rest⟩, outer', rest'⟩ =>
    ⟨⟨rest, rest'⟩, fun _ _ ⟨rest, rest'⟩ => ⟨⟨outer, rest⟩, outer', rest'⟩⟩

theorem InStep.separable {s : Sampler (Trail μ) (L.Value p)} {t : Sampler (Trail ν) (A.Value p)}
    (h : InStep K (Kept V V') L.Alike s t) (hq : A.product p k = some q)
    (anchor : Anchor (max 1 row.length) (max 1 col.length)) (border : Border) :
    InStep K (Kept (fun memo => KeepsOuter row col memo.1 ∧ V memo.2)
        fun memo => KeepsOuter row col memo.1 ∧ V' memo.2) L.Alike
      (separable (A := L.arithmetic) s hq row col anchor border)
      (t.separable hq row col anchor border) :=
  (h.besideSlot kept_frames).convolveBy outerKernel_carries hq anchor border

end Sampler

namespace View

variable {A : Arithmetic} {L : Likeness A} {p : A.Pixel} {K : Pace}

/-- Two views of one shape, the second one over the selected planes of the first. Without a border
or over a grid, all planes have to be selected. -/
inductive InStep (K : Pace) (L : Likeness A) : {p : A.Pixel} → View L.arithmetic p → View A p → Prop
  | image {p : A.Pixel} {pixels : Image (L.Value p)} {pixels' : Image (A.Value p)}
    {provenance provenance' : Provenance} : pixels.Selected K L.Alike pixels' →
    (K.sel.step = 1 ∨ 0 < pixels.planes) →
    InStep K L (.image (A := L.arithmetic) (p := p) pixels provenance) (.image pixels' provenance')
  | strided {p : A.Pixel} {grid : Strided (L.Value p)} {grid' : Strided (A.Value p)} :
    grid.Selected K L.Alike grid' → K.sel.step = 1 → grid.addressing = grid'.addressing →
    InStep K L (.strided (A := L.arithmetic) (p := p) grid) (.strided grid')
  | crop {p : A.Pixel} {child : View L.arithmetic p} {child' : View A p} {x0 y0 : Int}
    {cols rows : Nat} : InStep K L child child' →
    InStep K L (child.crop x0 y0 cols rows) (child'.crop x0 y0 cols rows)
  | extend {p : A.Pixel} {child : View L.arithmetic p} {child' : View A p} {border : Border} :
    InStep K L child child' → InStep K L (child.extend border) (child'.extend border)
  | convolve {p : A.Pixel} {k : A.Coeff} {q : A.Pixel} {child : View L.arithmetic p}
    {child' : View A p} {h : A.product p k = some q} {kernel : Kernel (A.Factor k)}
    {anchor : Anchor kernel.cols kernel.rows} {border : Option Border} : InStep K L child child' →
    (K.sel.step = 1 ∨ border ≠ none) →
    InStep K L
      (.convolve (A := L.arithmetic) (p := p) (k := k) (q := q) child h kernel anchor border)
      (child'.convolve h kernel anchor border)
  | separable {p : A.Pixel} {k : A.Coeff} {q : A.Pixel} {child : View L.arithmetic p}
    {child' : View A p} {h : A.product p k = some q} {row col : List (A.Factor k)}
    {anchor : Anchor (max 1 row.length) (max 1 col.length)} {border : Border} :
    InStep K L child child' →
    InStep K L
      (.separable (A := L.arithmetic) (p := p) (k := k) (q := q) child h row col anchor border)
      (child'.separable h row col anchor border)

/-- Where a box without pixels may lie: in the bounds of what is stored, wherever crops move it. -/
def Framed : {p : A.Pixel} → View A p → Box → Prop
  | _, image pixels _, box => box.Within (.ofExtent pixels.cols pixels.rows)
  | _, strided grid, box => box.Within (.ofExtent grid.cols grid.rows)
  | _, crop child x0 y0 _ _, box => child.Framed { box with x := box.x + x0, y := box.y + y0 }
  | _, extend .., _ | _, convolve .., _ | _, separable .., _ => True

theorem InStep.sampler {v : View L.arithmetic p} {v' : View A p} (h : InStep K L v v') :
    Sampler.InStep K (Kept (Memo.Valid v) (Memo.Valid v')) L.Alike v.sampler v'.sampler := by
  induction h with
  | image selected _ => exact Sampler.image_inStep selected
  | strided selected one same => exact selected.inStep one same
  | crop _ ih => exact ih.crop _ _ _ _
  | extend _ ih => exact ih.extend _ (L.blank_alike _)
  | convolve _ _ ih => exact ih.convolve _ _ _ _
  | separable _ ih => exact ih.separable _ _ _

theorem InStep.tiler {v : View L.arithmetic p} {v' : View A p} (h : InStep K L v v')
    (capacity : K.Excused .capacity) : Tiler.InStep K L.Alike v'.Framed v.tiler v'.tiler := by
  induction h with
  | image selected planes => exact Tiler.image_inStep selected planes
  | strided selected one _ => exact Tiler.strided_inStep selected (.inl one)
  | crop _ ih => exact ih.crop _ _ _ _
  | extend _ ih => exact ih.extended (L.stores capacity _) _ _
  | convolve _ given ih => exact ih.convolve capacity _ _ _ given _
  | separable _ ih => exact ih.separable capacity _ _ _ _ _ _

end View

end ImageViews
