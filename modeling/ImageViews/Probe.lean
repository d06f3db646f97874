import ImageViews.Record

/-!
# Probes

A probe evaluates single pixels. It may fault, and it keeps a state whether it faults or not. The
state of a lazy evaluation is a trail: the kernels built so far, kept for the next pixel, and the
log.
-/
namespace ImageViews

abbrev Probe (σ : Type) := ExceptT Fault (StateM σ)

structure Trail (μ : Type) where
  memo : μ
  log : Log := []

/-- A probe that runs beside one more slot of the memo, which it leaves alone. -/
def Probe.besideSlot {ν μ α : Type} (probe : Probe (Trail μ) α) : Probe (Trail (ν × μ)) α :=
  ExceptT.mk fun trail =>
    let (result, rest) := probe.run.run { memo := trail.memo.2, log := trail.log }
    (result, { memo := (trail.memo.1, rest.memo), log := rest.log })

end ImageViews
