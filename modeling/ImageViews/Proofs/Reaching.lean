import ImageViews.Proofs.Twins
import ImageViews.View.Session

/-!
# Kernels that are reached

Which separable filters a query goes through is told by an evaluation that keeps no kernels: each
filter builds its kernel anew for every pixel it is asked for, and notes it. This evaluation and the
one that keeps kernels are in step, also where they fault, so what a view keeps that was asked
nothing before is what was noted.
-/
namespace ImageViews

variable {A : Arithmetic} {p : A.Pixel} {k : A.Coeff} {q : A.Pixel} {α μ : Type}

namespace Sampler

/-- The outer product of two factors, built whatever its slot holds, and noted there. -/
def noteOuter (row col : List (A.Factor k)) :
    Probe (Trail (Option (Kernel (A.Factor k)) × μ)) (Kernel (A.Factor k)) := do
  let kernel ← Kernel.outer (A.one k) A.times row col
  modify fun trail => { trail with memo := (some kernel, trail.memo.2) }
  return kernel

/-- The convolution of `s` with the outer product of two factors, which is noted for every pixel. -/
def noting (s : Sampler (Trail μ) (A.Value p)) (h : A.product p k = some q)
    (row col : List (A.Factor k)) (anchor : Anchor (max 1 row.length) (max 1 col.length))
    (border : Border) : Sampler (Trail (Option (Kernel (A.Factor k)) × μ)) (A.Value q) :=
  .computed s.cols s.rows s.planes fun x y plane => do
    let kernel ← noteOuter row col
    s.besideSlot.convolveAt h kernel anchor (some border) x y plane

end Sampler

namespace View

/-- Access to single pixels that notes the kernels it goes through. -/
def noting : {p : A.Pixel} → (v : View A p) → Sampler (Trail v.Memo) (A.Value p)
  | _, image pixels _ => .image pixels
  | _, strided grid => .strided grid
  | _, crop child x0 y0 cols rows => child.noting.crop x0 y0 cols rows
  | p, extend child border => child.noting.extend border (A.blank p)
  | _, convolve child h kernel anchor border => child.noting.convolve h kernel anchor border
  | _, separable child h row col anchor border => child.noting.noting h row col anchor border

def noted (v : View A p) (probe : Probe (Trail v.Memo) α) : v.Memo :=
  (probe.run.run { memo := Memo.empty v }).2.memo

/-- The dense kernel of a separable filter, if the view is one. -/
def dense? : {p : A.Pixel} → View A p → Option (Σ k : A.Coeff, Check (Kernel (A.Factor k)))
  | _, separable (k := k) _ _ row col _ _ => some ⟨k, Kernel.outer (A.one k) A.times row col⟩
  | _, _ => none

/-- The dense kernel alone, in its slot. -/
def denseMemo : {p : A.Pixel} → (v : View A p) → v.Memo
  | _, image .. | _, strided .. => ()
  | _, crop child .. | _, extend child _ | _, convolve child .. => Memo.empty child
  | _, separable (k := k) child _ row col _ _ =>
    ((Kernel.outer (A.one k) A.times row col).toOption, Memo.empty child)

/-- The kernels of the separable filters that a query goes through. A box goes through none. -/
def reached (v : View A p) : Query A p → v.Memo
  | .get x y plane => v.noted (v.noting.get x y plane)
  | .pixel border x y plane => v.noted (border.pixel v.noting (A.blank p) x y plane)
  | .cursor moves => v.noted (v.noting.cursor moves)
  | .kernel => v.denseMemo
  | .paint handle cells box =>
    ((v.noting.paint handle box).run.run (cells, { memo := Memo.empty v })).2.2.memo
  | .rasterize .. | .toImage | .region _ | .extendedRegion .. | .prerasterize _ => Memo.empty v

end View

section Walks

variable {sel : Selection} {planes : Nat} {a a' : Addressing} {place : a.Place}
  {place' : a'.Place} {T : Fault → Prop}

namespace Addressing

theorem move_carries (one : sel.step = 1) (scaled : Scaled sel planes a a')
    (same : Linked sel 0 Eq a a' place place') (move : Move) :
    (a.move place move).Carries T (a'.move place' move) (Linked sel 0 Eq a a') := by
  cases move with
  | nextCol => exact nextCol_carries (.inl one) scaled same (by omega) (by omega)
  | nextRow => exact nextRow_carries (.inl one) scaled same (by omega) (by omega)
  | nextPlane =>
    cases a <;> cases a'
    · obtain ⟨-, ⟨rfl, rfl⟩, -⟩ := scaled
      exact stride_carries (.inl one) same.2 (by omega) (by omega) (by omega)
    · exact scaled.elim
    · exact scaled.elim
    · obtain ⟨related, p⟩ := same
      change Check.Carries T
        (Coordinate.add (Position.p place) 1 >>= fun p => .ok { place with p := p })
        (Coordinate.add (Position.p place') 1 >>= fun p => .ok { place' with p := p }) _
      rw [p]
      apply Check.Carries.bind (.same _)
      rintro p' _ rfl
      exact .ok ⟨related, rfl⟩
  | advance dx dy dp =>
    refine advance_carries (.inl one) scaled same (.inr ?_) (by omega) (by omega) ?_
    · rw [one]
      omega
    · rintro p _ rfl
      exact .same _

theorem moves_carries (one : sel.step = 1) (scaled : Scaled sel planes a a')
    (same : Linked sel 0 Eq a a' place place') (moves : List Move) :
    (moves.foldlM a.move place : Check a.Place).Carries T (moves.foldlM a'.move place')
      (Linked sel 0 Eq a a') := by
  induction moves generalizing place place' with
  | nil => exact .ok same
  | cons move moves ih =>
    rw [List.foldlM_cons, List.foldlM_cons]
    apply Check.Carries.bind (move_carries one scaled same move)
    intro place place' same
    exact ih same

end Addressing

/-- Cursors that start in step and make the same moves read in step. -/
theorem Sampler.Cursors.cursor {σ τ β : Type} {K : Pace} {S : σ → τ → Prop} {Alike : α → β → Prop}
    {s : Sampler σ α} {t : Sampler τ β} (cursors : Cursors K S Alike s t) (one : K.sel.step = 1)
    (moves : List Move) : Carries S K.Excused (s.cursor moves) (t.cursor moves) Alike := by
  apply Carries.bind (.probe_check cursors.origin)
  intro start start' level
  have same := level.mono (Q := Eq) fun _ _ zero => zero.1.trans zero.2.symm
  apply Carries.bind (.probe_check (Addressing.moves_carries one cursors.scaled same moves))
  intro place place' same
  exact cursors.read place place' (same.meets one)

end Walks

/-- Both trails keep the same kernels, and these are the ones that they should keep. -/
def Noted (V : μ → Prop) (s t : Trail μ) : Prop := s.memo = t.memo ∧ V s.memo

namespace Sampler

variable {V : μ → Prop} {row col : List (A.Factor k)} {T : Fault → Prop}

theorem noted_frames :
    Frames (Noted V) (Noted fun memo => KeepsOuter row col memo.1 ∧ V memo.2) := by
  rintro ⟨_, log⟩ ⟨_, log'⟩ ⟨rfl, outer, rest⟩
  refine ⟨⟨rfl, rest⟩, ?_⟩
  rintro ⟨_, _⟩ ⟨_, _⟩ ⟨rfl, rest⟩
  exact ⟨rfl, outer, rest⟩

/-- Wherever a kernel is kept, it is the one that is noted there. -/
theorem outerKernel_notes :
    Carries (Noted fun memo => KeepsOuter row col memo.1 ∧ V memo.2) T (outerKernel row col)
      (noteOuter row col) Eq := by
  rintro ⟨⟨slot, memo⟩, log⟩ ⟨_, log'⟩ ⟨rfl, outer, rest⟩
  unfold outerKernel noteOuter
  simp only [run_bind]
  cases slot with
  | some kernel =>
    rw [outer kernel rfl]
    exact ⟨kernel, _, rfl, rfl, rfl, outer, rest⟩
  | none =>
    cases built : Kernel.outer (A.one k) A.times row col with
    | error fault => exact .inr ⟨_, rfl, rfl, outer, rest⟩
    | ok kernel =>
      refine ⟨kernel, _, rfl, rfl, rfl, ?_, rest⟩
      rintro _ ⟨⟩
      exact built

/-- A kernel that can be built is noted in an empty slot. -/
theorem noteOuter_memo (row col : List (A.Factor k)) (memo : μ) (log : Log) :
    ((noteOuter row col).run.run { memo := (none, memo), log }).2.memo =
      ((Kernel.outer (A.one k) A.times row col).toOption, memo) := by
  unfold noteOuter
  simp only [run_bind]
  cases Kernel.outer (A.one k) A.times row col with
  | error fault => rfl
  | ok kernel => rfl

theorem InStep.noting {K : Pace} {s t : Sampler (Trail μ) (A.Value p)}
    (h : InStep K (Noted V) Eq s t) (hq : A.product p k = some q)
    (anchor : Anchor (max 1 row.length) (max 1 col.length)) (border : Border) :
    InStep K (Noted fun memo => KeepsOuter row col memo.1 ∧ V memo.2) Eq
      (s.separable hq row col anchor border) (t.noting hq row col anchor border) :=
  InStep.convolveBy (L := .same A) (h.besideSlot noted_frames) outerKernel_notes hq anchor border

end Sampler

namespace View

variable {v : View A p}

theorem noting_inStep (v : View A p) :
    Sampler.InStep (.whole Strict) (Noted (Memo.Valid v)) Eq v.sampler v.noting := by
  induction v with
  | image pixels => exact Sampler.image_inStep pixels.selected_self
  | strided grid => exact (grid.mapped_selected (Array.map_id _)).inStep rfl rfl
  | crop child x0 y0 cols rows ih => exact ih.crop x0 y0 cols rows
  | extend child border ih => exact ih.extend border rfl
  | convolve child h kernel anchor border ih =>
    exact Sampler.InStep.convolve (L := .same A) ih h kernel anchor border
  | separable child h row col anchor border ih => exact ih.noting h anchor border

theorem noting_cursors (v : View A p) :
    Sampler.Cursors (.whole Strict) (Noted (Memo.Valid v)) Eq v.sampler v.noting :=
  v.noting_inStep.cursors.resolve_right fun ⟨tolerant, _⟩ => tolerant .overflow

theorem memo_eq_noted {probe probe' : Probe (Trail v.Memo) α} {Q : α → α → Prop}
    (h : Carries (Noted (Memo.Valid v)) Strict probe probe' Q) :
    (probe.run.run { memo := Memo.empty v }).2.memo = v.noted probe' :=
  (h.states (fun _ => id) ⟨rfl, Memo.empty_valid v⟩).1

/-- The kernel that is answered is the outer product, kept or built. -/
theorem ask_kernel {trail : Trail v.Memo} (keeps : v.Keeps trail) :
    (v.ask .kernel trail).1 = .kernel v.dense? := by
  cases v with
  | image | strided | crop | extend | convolve => rfl
  | separable child h row col anchor border =>
    obtain ⟨slot, log, run, -⟩ := Sampler.outerKernel_run keeps.1
    exact congrArg (fun reply => Answer.kernel (some ⟨_, reply.1⟩)) run

theorem askFresh_kernel (v : View A p) : (v.askFresh .kernel).2.memo = v.denseMemo := by
  cases v with
  | image | strided | crop | extend | convolve => rfl
  | separable child h row col anchor border =>
    have valid := Memo.empty_valid (.separable child h row col anchor border)
    have noted := (Sampler.outerKernel_notes (T := Strict) (V := Memo.Valid child)).states
      (fun _ => id) (s := { memo := Memo.empty (.separable child h row col anchor border) })
      (t := { memo := Memo.empty (.separable child h row col anchor border) }) ⟨rfl, valid⟩
    exact noted.1.trans (Sampler.noteOuter_memo row col (Memo.empty child) [])

/-- A view that was asked nothing before keeps the kernels that a query reaches. -/
theorem askFresh_reached (v : View A p) (query : Query A p) :
    (v.askFresh query).2.memo = v.reached query := by
  cases query with
  | get x y plane =>
    have inStep := v.noting_inStep.get x y (i := plane) (.inl rfl)
    rw [Pace.whole_nth] at inStep
    exact memo_eq_noted inStep
  | pixel border x y plane =>
    have inStep := v.noting_inStep.pixel border (Eq.refl (A.blank p)) x y (i := plane) (.inl rfl)
    rw [Pace.whole_nth] at inStep
    exact memo_eq_noted inStep
  | cursor moves => exact memo_eq_noted (v.noting_cursors.cursor rfl moves)
  | kernel => exact v.askFresh_kernel
  | paint handle cells box =>
    have inStep := v.noting_cursors.paint (.inl rfl) v.noting_inStep.planes_eq
      handle.scales_whole_self box
    have chosen : (Pace.whole Strict).Cells Eq cells cells :=
      Pace.whole_chosen.2 (Array.map_id _)
    exact (inStep.states Failure.Excused.strict (s := (cells, _)) (t := (cells, _))
      ⟨chosen, rfl, Memo.empty_valid v⟩).2.1
  | rasterize | toImage | region | extendedRegion | prerasterize => rfl

end View

end ImageViews
