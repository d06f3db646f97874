import ImageViews.Proofs.Lookup
import ImageViews.Proofs.Quiet

/-!
# Kept kernels

What a point access leaves behind does not depend on what was kept before: it reaches some of the
separable filters of a view, and builds the kernels of those that had none. A `Cache` tells how
kernels that were kept and kernels that are reached join, and what is recorded of the difference.
-/
namespace ImageViews

structure Cache (μ : Type) where
  empty : μ
  /-- What is kept once `reached` was reached too. -/
  join : μ → μ → μ
  /-- The records of building what is reached and was not kept. -/
  missing : μ → μ → Log
  Valid : μ → Prop
  Buildable : Prop
  empty_join : ∀ memo, join empty memo = memo
  join_empty : ∀ memo, join memo empty = memo
  join_assoc : ∀ memo reached more,
    join (join memo reached) more = join memo (join reached more)
  missing_empty : ∀ memo, missing memo empty = []
  missing_join : ∀ memo reached more, (missing memo (join reached more)).Perm
    (missing memo reached ++ missing (join memo reached) more)
  empty_valid : Valid empty
  join_valid : ∀ {memo reached}, Valid memo → Valid reached → Valid (join memo reached)

namespace Cache

variable {A : Arithmetic} {k : A.Coeff} {μ : Type}

def none : Cache Unit where
  empty := ()
  join _ _ := ()
  missing _ _ := []
  Valid _ := True
  Buildable := True
  empty_join _ := rfl
  join_empty _ := rfl
  join_assoc _ _ _ := rfl
  missing_empty _ := rfl
  missing_join _ _ _ := .nil
  empty_valid := trivial
  join_valid _ _ := trivial

/-- The record of a slot that is filled. -/
def slotMissing {κ : Type} (built : Record) : Option κ → Option κ → Log
  | .none, some _ => [built]
  | _, _ => []

/-- One more slot, for the outer product of two factors. -/
def slot (C : Cache μ) (row col : List (A.Factor k)) :
    Cache (Option (Kernel (A.Factor k)) × μ) where
  empty := (.none, C.empty)
  join memo reached := (memo.1.or reached.1, C.join memo.2 reached.2)
  missing memo reached :=
    slotMissing (.kernelBuilt (max 1 row.length) (max 1 col.length)) memo.1 reached.1 ++
      C.missing memo.2 reached.2
  Valid memo := KeepsOuter row col memo.1 ∧ C.Valid memo.2
  Buildable := (∃ kernel, Kernel.outer (A.one k) A.times row col = .ok kernel) ∧ C.Buildable
  empty_join memo := by simp [C.empty_join]
  join_empty memo := by simp [C.join_empty]
  join_assoc memo reached more := by simp [C.join_assoc, Option.or_assoc]
  missing_empty memo := by
    rw [C.missing_empty]
    cases memo.1 <;> rfl
  missing_join memo reached more := by
    have rest := C.missing_join memo.2 reached.2 more.2
    rcases memo with ⟨_ | kept, memo⟩ <;> rcases reached with ⟨_ | kernel, reached⟩
    · rcases more with ⟨_ | further, more⟩
      · exact rest
      · simp only [Option.or, slotMissing, List.nil_append]
        exact (rest.cons _).trans List.perm_middle.symm
    · exact rest.cons _
    · exact rest
    · exact rest
  empty_valid := ⟨fun _ h => (nomatch h), C.empty_valid⟩
  join_valid {memo reached} valid valid' := by
    refine ⟨?_, C.join_valid valid.2 valid'.2⟩
    intro kernel kept
    rcases Option.or_eq_some_iff.1 kept with first | ⟨-, second⟩
    · exact valid.1 kernel first
    · exact valid'.1 kernel second

end Cache

/-- Kernels may be added to the ones that are kept, with a record of each one that was missing. -/
def Regime.caching {μ : Type} (C : Cache μ) : Regime (Trail μ) where
  Good trail := C.Valid trail.memo
  Allowed change := ∃ reached, C.Valid reached ∧ ∀ trail,
    (change trail).memo = C.join trail.memo reached ∧
      ∃ added, (change trail).log = trail.log ++ added ∧
        (C.Buildable → (Log.builds added).Perm (C.missing trail.memo reached))
  allowed_id := by
    refine ⟨C.empty, C.empty_valid, fun trail => ⟨(C.join_empty _).symm, [], ?_, fun _ => ?_⟩⟩
    · exact (List.append_nil _).symm
    · rw [C.missing_empty]
      rfl
  allowed_comp := by
    rintro f g ⟨reached, valid, change⟩ ⟨more, valid', change'⟩
    refine ⟨C.join reached more, C.join_valid valid valid', fun trail => ?_⟩
    obtain ⟨memo, added, log, builds⟩ := change trail
    obtain ⟨memo', added', log', builds'⟩ := change' (f trail)
    rw [memo] at memo' builds'
    refine ⟨memo'.trans (C.join_assoc ..), added ++ added', ?_, fun buildable => ?_⟩
    · rw [Function.comp_apply, log', log, List.append_assoc]
    · rw [Log.builds_append]
      exact ((builds buildable).append (builds' buildable)).trans (C.missing_join ..).symm
  good := by
    rintro f trail ⟨reached, valid, change⟩ good
    rw [(change trail).1]
    exact C.join_valid good valid

namespace Sampler

variable {A : Arithmetic} {p : A.Pixel} {k : A.Coeff} {q : A.Pixel} {α μ : Type} {C : Cache μ}
  {row col : List (A.Factor k)}

theorem besideSlot_settles {probe : Probe (Trail μ) α} (h : Settles (.caching C) probe) :
    Settles (.caching (C.slot row col))
      (probe.besideSlot (ν := Option (Kernel (A.Factor k)))) := by
  obtain ⟨result, change, ⟨reached, valid, allowed⟩, run⟩ := h
  let rest (trail : Trail (Option (Kernel (A.Factor k)) × μ)) : Trail μ :=
    change { memo := trail.memo.2, log := trail.log }
  refine ⟨result, fun trail => { memo := (trail.memo.1, (rest trail).memo)
                                 log := (rest trail).log }, ?_, ?_⟩
  · refine ⟨(none, reached), ⟨fun _ h => (nomatch h), valid⟩, fun trail => ?_⟩
    obtain ⟨memo, added, log, builds⟩ := allowed { memo := trail.memo.2, log := trail.log }
    refine ⟨Prod.ext (Option.or_none ..).symm memo, added, log, fun buildable => ?_⟩
    have same : Cache.slotMissing (.kernelBuilt (max 1 row.length) (max 1 col.length)) trail.memo.1
        none = [] := by
      cases trail.memo.1 <;> rfl
    exact (builds buildable.2).trans (.of_eq (by simp [Cache.slot, same]))
  · intro trail good
    rw [run_besideSlot, run { memo := trail.memo.2, log := trail.log } good.2]

/-- The kernel is built when its slot is empty, and kept. -/
theorem outerKernel_settles : Settles (.caching (C.slot row col)) (outerKernel row col) := by
  let built := Record.kernelBuilt (max 1 row.length) (max 1 col.length)
  cases outer : Kernel.outer (A.one k) A.times row col with
  | ok kernel =>
    refine ⟨.ok kernel, fun trail => trail.memo.1.elim
      { memo := (some kernel, trail.memo.2), log := trail.log ++ [built] } fun _ => trail, ?_, ?_⟩
    · refine ⟨(some kernel, C.empty), ⟨?_, C.empty_valid⟩, ?_⟩
      · rintro _ ⟨⟩
        exact outer
      rintro ⟨⟨_ | kept, memo⟩, log⟩
      · refine ⟨Prod.ext rfl (C.join_empty memo).symm, [built], rfl, fun _ => ?_⟩
        simp [Cache.slot, Cache.slotMissing, C.missing_empty, Log.builds, built, Record.isBuild]
      · refine ⟨Prod.ext rfl (C.join_empty memo).symm, [], (List.append_nil _).symm, fun _ => ?_⟩
        simp [Cache.slot, Cache.slotMissing, C.missing_empty, Log.builds]
    · rintro ⟨⟨_ | kept, memo⟩, log⟩ good
      · unfold outerKernel
        simp only [run_bind, outer]
        rfl
      · have same := good.1 kept rfl
        rw [outer] at same
        obtain rfl := Except.ok.inj same
        rfl
  | error fault =>
    refine ⟨.error fault, fun trail => trail.memo.1.elim
      { trail with log := trail.log ++ [built] } fun _ => trail, ?_, ?_⟩
    · refine ⟨(none, C.empty), ⟨fun _ h => (nomatch h), C.empty_valid⟩, ?_⟩
      have unbuildable : ¬(C.slot row col).Buildable := by
        rintro ⟨⟨kernel, ok⟩, -⟩
        rw [outer] at ok
        cases ok
      rintro ⟨⟨_ | kept, memo⟩, log⟩
      · exact ⟨Prod.ext rfl (C.join_empty memo).symm, [built], rfl, fun h => absurd h unbuildable⟩
      · exact ⟨Prod.ext rfl (C.join_empty memo).symm, [], (List.append_nil _).symm,
          fun h => absurd h unbuildable⟩
    · rintro ⟨⟨_ | kept, memo⟩, log⟩ good
      · unfold outerKernel
        simp only [run_bind, outer]
        rfl
      · have same := good.1 kept rfl
        rw [outer] at same
        cases same

theorem Settled.separable {s : Sampler (Trail μ) (A.Value p)} (h : s.Settled (.caching C))
    (hq : A.product p k = some q) (anchor : Anchor (max 1 row.length) (max 1 col.length))
    (border : Border) :
    (s.separable hq row col anchor border).Settled (.caching (C.slot row col)) := by
  apply computed_settled
  intro x y plane
  apply Settles.bind outerKernel_settles
  intro kernel
  have beside : (s.besideSlot (ν := Option (Kernel (A.Factor k)))).Settled
      (.caching (C.slot row col)) :=
    ⟨fun x y p => besideSlot_settles (h.get x y p), fun place => besideSlot_settles (h.read place)⟩
  exact beside.convolveAt hq kernel anchor (some border) x y plane

end Sampler

namespace View

variable {A : Arithmetic} {p : A.Pixel}

def cache : {p : A.Pixel} → (v : View A p) → Cache v.Memo
  | _, image .. | _, strided _ => .none
  | _, crop child .. | _, extend child _ | _, convolve child .. => child.cache
  | _, separable child _ row col _ _ => child.cache.slot row col

theorem cache_empty (v : View A p) : v.cache.empty = Memo.empty v := by
  induction v with
  | image | strided => rfl
  | crop _ _ _ _ _ ih | extend _ _ ih | convolve _ _ _ _ _ ih => exact ih
  | separable _ _ _ _ _ _ ih => exact Prod.ext rfl ih

theorem cache_valid (v : View A p) : v.cache.Valid = Memo.Valid v := by
  induction v with
  | image | strided => rfl
  | crop _ _ _ _ _ ih | extend _ _ ih | convolve _ _ _ _ _ ih => exact ih
  | separable _ _ _ _ _ _ ih =>
    funext memo
    exact congrArg (_ ∧ ·) (congrFun ih memo.2)

/-- The result of a point access does not depend on the kernels that are kept. -/
theorem sampler_settled (v : View A p) : v.sampler.Settled (.caching v.cache) := by
  induction v with
  | image pixels => exact Sampler.image_settled pixels
  | strided grid => exact Sampler.strided_settled grid
  | crop child x0 y0 cols rows ih => exact ih.crop x0 y0 cols rows
  | extend child border ih => exact ih.extend border _
  | convolve child h kernel anchor border ih => exact ih.convolve h kernel anchor border
  | separable child h row col anchor border ih => exact ih.separable h anchor border

end View

end ImageViews
