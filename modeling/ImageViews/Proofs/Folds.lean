import ImageViews.Proofs.Calm

/-!
# Sums as folds

The sum of a line of pixels against a factor is a fold over the positions of the line, from the
first pixel on and from the last coefficient down. Nothing is assumed of the arithmetic, so the
order of the additions is part of the statement.
-/
namespace ImageViews

variable {A : Arithmetic} {p : A.Pixel} {k : A.Coeff} {q : A.Pixel} {n : Nat}

/-- Adds to a sum the products of `n` pixels, in order, with `n` coefficients, in reverse order. -/
def foldLine {m : Type → Type} [Monad m] [MonadLiftT Check m] (h : A.product p k = some q)
    (coeff : Fin n → A.Factor k) (pixel : Nat → m (A.Value p)) (sum : A.Value q) :
    m (A.Value q) :=
  (List.finRange n).foldlM (fun sum (i : Fin n) => do
    let value ← pixel i
    let product ← A.scale h value (coeff i.rev)
    A.add sum product) sum

variable {h : A.product p k = some q}

/-- The induction is on the number of pixels that are left, so the position of the first of them
and the sum before it vary. -/
theorem sumLine_eq_foldlM {pixel : Nat → Check (A.Value p)} {coeff : Nat → Check (A.Factor k)}
    {c : Fin n → A.Factor k} {i : Nat} {s : A.Value q}
    (hcoeff : ∀ j : Fin n, coeff (i + j) = .ok (c j)) :
    sumLine h pixel coeff n i s = (List.finRange n).foldlM (fun sum j => do
      let value ← pixel (i + j)
      let product ← A.scale h value (c j)
      A.add sum product) s := by
  induction n generalizing i s with
  | zero => rfl
  | succ n ih =>
    have first : coeff i = .ok (c 0) := hcoeff 0
    have rest (s : A.Value q) := ih (c := fun j => c j.succ) (i := i + 1) (s := s) fun j => by
      have := hcoeff j.succ
      simpa [Nat.add_assoc, Nat.add_comm 1] using this
    rw [sumLine_succ, List.finRange_succ, List.foldlM_cons]
    simp only [List.foldlM_map, first, Check.ok_bind, rest, bind_assoc, Fin.val_zero, Nat.add_zero,
      Fin.val_succ, Nat.add_assoc, Nat.add_comm 1]

theorem turnedFactor_eq_get {κ : Type} (factor : List κ) (i : Fin factor.length) :
    turnedFactor factor i = .ok (factor.get i.rev) := by
  rw [turnedFactor_eq (by simp)]
  simp [Fin.rev, Nat.sub_sub, Nat.add_comm]

theorem factorSum_eq_foldLine (factor : List (A.Factor k)) (pixel : Nat → Check (A.Value p)) :
    factorSum h factor pixel = foldLine h factor.get pixel (A.start q) := by
  have fold : sumLine h pixel (turnedFactor factor) factor.length 0 (A.start q) = _ :=
    sumLine_eq_foldlM (i := 0) fun i => by simpa using turnedFactor_eq_get factor i
  simpa [factorSum, foldLine] using fold

section Sweeps

variable {σ π β : Type} {step : π → Check π} {visit : Nat → π → β → Probe σ β}

/-- A walk whose places are known is a fold over the visits. -/
theorem sweep_eq_foldlM (place : Nat → π) {f : Fin n → β → Probe σ β} {i : Nat} {b : β}
    (hvisit : ∀ (j : Fin n) acc, visit (i + j) (place (i + j)) acc = f j acc)
    (hstep : ∀ j : Fin n, step (place (i + j)) = .ok (place (i + j + 1))) :
    sweep step visit n i (place i) b =
      (List.finRange n).foldlM (fun acc j => f j acc) b := by
  induction n generalizing i b with
  | zero => rfl
  | succ n ih =>
    have first (acc : β) : visit i (place i) acc = f 0 acc := hvisit 0 acc
    have moved : step (place i) = .ok (place (i + 1)) := hstep 0
    have rest (b : β) := ih (f := fun j => f j.succ) (i := i + 1) (b := b)
      (fun j acc => by simpa [Nat.add_assoc, Nat.add_comm 1] using hvisit j.succ acc)
      (fun j => by simpa [Nat.add_assoc, Nat.add_comm 1] using hstep j.succ)
    rw [List.finRange_succ, List.foldlM_cons]
    simp only [List.foldlM_map, ← rest, ← first]
    refine bind_congr fun acc => ?_
    rw [moved]
    rfl

end Sweeps

section Windows

variable {σ : Type} {kernel : Kernel (A.Factor k)} {s : Sampler σ (A.Value p)}

def Kernel.coeff {κ : Type} (kernel : Kernel κ) (i : Fin kernel.cols) (j : Fin kernel.rows) : κ :=
  have : j * kernel.cols + i < kernel.coeffs.size := (kernel.turned_eq i.isLt j.isLt).1
  kernel.coeffs[j * kernel.cols + i]

/-- Half a turn takes a coefficient to the opposite column and row. -/
theorem Kernel.turned_eq_coeff {κ : Type} (kernel : Kernel κ) (i : Fin kernel.cols)
    (j : Fin kernel.rows) : kernel.turned i j = .ok (kernel.coeff i.rev j.rev) := by
  obtain ⟨offset, turned⟩ := kernel.turned_eq i.isLt j.isLt
  have lines : (j + (j.rev + 1)) * kernel.cols = kernel.cols * kernel.rows := by
    rw [Nat.mul_comm]
    congr 1
    simp only [Fin.val_rev]
    omega
  have line : (j + (j.rev + 1)) * kernel.cols =
      j * kernel.cols + (j.rev * kernel.cols + kernel.cols) := by
    rw [Nat.add_mul, Nat.succ_mul]
  have opposite : kernel.coeffs.size - 1 - (j * kernel.cols + i) =
      j.rev * kernel.cols + i.rev := by
    rw [kernel.size_coeffs]
    simp only [Fin.val_rev] at *
    omega
  rw [turned, opposite, fetchCell_of_lt (by omega)]
  rfl

/-- Adds the products of a window of pixels with a kernel, both read row by row, the kernel from
its last coefficient on. -/
def foldWindow {m : Type → Type} [Monad m] [MonadLiftT Check m] (h : A.product p k = some q)
    (kernel : Kernel (A.Factor k)) (pixel : Nat → Nat → m (A.Value p)) : m (A.Value q) :=
  (List.finRange kernel.rows).foldlM (fun sum (j : Fin kernel.rows) =>
    foldLine h (kernel.coeff · j.rev) (pixel · j) sum) (A.start q)

section Walks

variable {place : s.addressing.Place} {pixel : Nat → Nat → Probe σ (A.Value p)}

namespace Sampler

/-- One line of a window whose pixels are known. -/
theorem addLine_eq_foldLine {j : Fin kernel.rows} {sum : A.Value q}
    (hread : ∀ i, i < kernel.cols → s.read (s.addressing.moved place i j 0) = pixel i j)
    (hmove : ∀ i, i ≤ kernel.cols → s.addressing.Fits (s.addressing.moved place i j 0))
    (hkernel : (kernel.coeffs.size : Int) ≤ Coordinate.greatest) :
    s.addLine h kernel .rotated (s.windowPlace kernel place 0 j) sum =
      foldLine h (kernel.coeff · j.rev) (pixel · j) sum := by
  refine sweep_eq_foldlM (i := 0) (s.windowPlace kernel place · j) (fun i acc => ?_) fun i => ?_
  · simp only [Nat.zero_add]
    have coeff : kernel.read (s.windowPlace kernel place i j).2 = .ok (kernel.coeff i.rev j.rev) :=
      kernel.turned_eq_coeff i j
    unfold addTerm
    rw [coeff, ← hread i i.isLt]
    rfl
  · simp only [Nat.zero_add]
    exact (windowNextCol_yields i.isLt j.isLt (.inr (hmove _ i.isLt)) (.inr hkernel)).eq_ok

/-- The correlation with a turned kernel at a place whose window is known. -/
theorem correlate2d_eq_foldWindow
    (hread : ∀ i j, i < kernel.cols → j < kernel.rows →
      s.read (s.addressing.moved place i j 0) = pixel i j)
    (hmove : ∀ i j, i ≤ kernel.cols → j ≤ kernel.rows →
      s.addressing.Fits (s.addressing.moved place i j 0))
    (hkernel : (kernel.coeffs.size : Int) ≤ Coordinate.greatest) :
    s.correlate2d h kernel .rotated place = foldWindow h kernel pixel := by
  have start : (place, kernel.start .rotated) = s.windowPlace kernel place 0 0 := by
    simp [windowPlace]
  unfold correlate2d
  rw [start]
  refine sweep_eq_foldlM (i := 0) (s.windowPlace kernel place 0 ·) (fun j acc => ?_) fun j => ?_
  · simp only [Nat.zero_add]
    exact addLine_eq_foldLine (fun i hi => hread i j hi j.isLt)
      (fun i hi => hmove i j hi (Nat.le_of_lt j.isLt)) hkernel
  · simp only [Nat.zero_add]
    exact (windowNextRow_yields j.isLt (.inr (hmove 0 (j + 1) (Nat.zero_le _) j.isLt))
      (.inr hkernel)).eq_ok

end Sampler

end Walks

end Windows

end ImageViews
