import ImageViews.Proofs.Value

/-!
# Sums over windows

Correlating a sampler with a kernel at the place of a pixel gives the sum of the products of the
kernel with the pixels of the window there, in reading order. The walk over the window is the walk
of two cursors, and a sum is carried on as long as the pixels that are still to come bring it to
the sum of the whole window.
-/
namespace ImageViews

variable {A : Arithmetic} {p : A.Pixel} {k : A.Coeff} {q : A.Pixel} {σ : Type}
  {E : Fault → Prop} {I : σ → Prop} {h : A.product p k = some q}

/-- The first product of a line, and the sum that is left. -/
theorem sumLine_succ {pixel : Nat → Check (A.Value p)} {coeff : Nat → Check (A.Factor k)}
    {n i : Nat} {sum : A.Value q} :
    sumLine h pixel coeff (n + 1) i sum = (do
      let value ← pixel i
      let factor ← coeff i
      let product ← A.scale h value factor
      let sum ← A.add sum product
      sumLine h pixel coeff n (i + 1) sum) := rfl

theorem turnedFactor_eq {κ : Type} {factor : List κ} {i : Nat} (hi : i < factor.reverse.length) :
    turnedFactor factor i = .ok factor.reverse[i] := by
  unfold turnedFactor
  rw [fetchCell_of_lt (by simpa using hi)]
  simp

namespace Sampler

variable {s : Sampler σ (A.Value p)}

/-- Reading the pixels from a place on along a row gives `pixel i`, `pixel (i + 1)` and so on. -/
theorem correlateRow_yields {pixel : Nat → Check (A.Value p)} {coeff : Nat → Check (A.Factor k)}
    (place : s.addressing.Place) {coeffs : List (A.Factor k)} {i : Nat} {sum : A.Value q} {st : σ}
    (hcoeff : ∀ j (hj : j < coeffs.length), coeff (i + j) = .ok coeffs[j])
    (hpixel : ∀ j, i ≤ j → j < i + coeffs.length → (pixel j).Tolerable E → ∀ st, I st →
      Yields E (s.read (s.addressing.moved place j 0 0)) st fun a st' => I st' ∧ pixel j = .ok a)
    (hmove : ∀ j, i < j → j ≤ i + coeffs.length →
      E .overflow ∨ s.addressing.Fits (s.addressing.moved place j 0 0))
    (hsum : (sumLine h pixel coeff coeffs.length i sum).Tolerable E) (hst : I st) :
    Yields E (s.correlateRow h coeffs (s.addressing.moved place i 0 0) sum) st fun a st' =>
      I st' ∧ sumLine h pixel coeff coeffs.length i sum = .ok a := by
  induction coeffs generalizing i sum st with
  | nil => exact Yields.pure ⟨hst, rfl⟩
  | cons c coeffs ih =>
    rw [List.length_cons, sumLine_succ] at hsum ⊢
    refine Yields.bind ((hpixel i (Nat.le_refl _) (by simp) hsum.of_bind st hst).mono ?_)
    rintro value st' ⟨hst', hvalue⟩
    have hc : coeff i = .ok c := hcoeff 0 (by simp)
    simp only [hvalue, hc, Check.ok_bind] at hsum ⊢
    refine Yields.bind (Yields.probe_check (.of_tolerable hsum.of_bind ?_))
    intro product hp
    simp only [hp, Check.ok_bind] at hsum ⊢
    refine Yields.bind (Yields.probe_check (.of_tolerable hsum.of_bind ?_))
    intro total ht
    simp only [ht, Check.ok_bind] at hsum ⊢
    have next := s.addressing.nextCol_yields (E := E) (s.addressing.moved place i 0 0) (by
        have := hmove (i + 1) (by simp) (by simp)
        simpa [Addressing.moved_moved] using this)
    refine Yields.bind (Yields.probe_check (next.mono ?_))
    rintro _ rfl
    rw [Addressing.moved_moved]
    refine ih (i := i + 1) ?_ ?_ ?_ hsum hst'
    · intro j hj
      have := hcoeff (j + 1) (by simpa using hj)
      simpa [Nat.add_assoc, Nat.add_comm 1] using this
    · exact fun j hj hj' => hpixel j (by omega) (by simp; omega)
    · exact fun j hj hj' => hmove j (by omega) (by simp; omega)

theorem correlate1d_yields {pixel : Nat → Check (A.Value p)} {place : s.addressing.Place}
    {factor : List (A.Factor k)} {st : σ}
    (hpixel : ∀ j, j < factor.length → (pixel j).Tolerable E → ∀ st, I st →
      Yields E (s.read (s.addressing.moved place j 0 0)) st fun a st' => I st' ∧ pixel j = .ok a)
    (hmove : ∀ j, j ≤ factor.length →
      E .overflow ∨ s.addressing.Fits (s.addressing.moved place j 0 0))
    (hsum : (factorSum h factor pixel).Tolerable E) (hst : I st) :
    Yields E (s.correlate1d h factor.reverse place) st fun a st' =>
      I st' ∧ factorSum h factor pixel = .ok a := by
  unfold factorSum at hsum ⊢
  rw [← List.length_reverse] at hsum ⊢
  have row := correlateRow_yields (i := 0) (I := I) place
    (fun j hj => by simpa using turnedFactor_eq hj)
    (fun j _ hj => hpixel j (by simpa using hj)) (fun j _ hj => hmove j (by simpa using hj))
    hsum hst
  simpa [correlate1d] using row

/-- The places of a walk through the rotated kernel, next to those of the walk through a window. -/
def windowPlace (s : Sampler σ (A.Value p)) (kernel : Kernel (A.Factor k))
    (place : s.addressing.Place) (i j : Nat) : s.addressing.Place × Int :=
  (s.addressing.moved place i j 0, kernel.start .rotated - (j * kernel.cols + i : Nat))

/-- The kernel cursor stays between the ends of the coefficients, one cell included before them. -/
theorem kernelPlace_fits {kernel : Kernel (A.Factor k)} {i j : Nat}
    (hsize : (kernel.coeffs.size : Int) ≤ Coordinate.greatest)
    (h : j * kernel.cols + i ≤ kernel.coeffs.size) :
    Coordinate.Fits (kernel.start .rotated - (j * kernel.cols + i : Nat)) := by
  simp only [Kernel.start, Coordinate.Fits, Coordinate.least, Coordinate.greatest] at hsize ⊢
  omega

theorem kernelOffset_le {cols rows i j : Nat} (hi : i ≤ cols) (hj : j < rows) :
    j * cols + i ≤ cols * rows := by
  calc j * cols + i ≤ j * cols + cols := by omega
    _ = (j + 1) * cols := by rw [Nat.succ_mul]
    _ ≤ rows * cols := Nat.mul_le_mul_right _ hj
    _ = cols * rows := Nat.mul_comm _ _

section Window

variable {kernel : Kernel (A.Factor k)} {pixel : Nat → Nat → Check (A.Value p)}
  {place : s.addressing.Place}

theorem windowNextCol_yields {i j : Nat} (hi : i < kernel.cols) (hj : j < kernel.rows)
    (hmove : E .overflow ∨ s.addressing.Fits (s.addressing.moved place (i + 1 : Nat) j 0))
    (hkernel : E .overflow ∨ (kernel.coeffs.size : Int) ≤ Coordinate.greatest) :
    (s.windowNextCol kernel .rotated (s.windowPlace kernel place i j)).Yields E
      (· = s.windowPlace kernel place (i + 1) j) := by
  refine Check.Yields.bind ((s.addressing.nextCol_yields _ ?_).mono ?_)
  · simpa [windowPlace, Addressing.moved_moved] using hmove
  rintro _ rfl
  refine Check.Yields.bind (Coordinate.add_yields ?_ fun _ => Check.Yields.ok ?_)
  · apply hkernel.imp_right
    intro hsize
    have fits := kernelPlace_fits (i := i + 1) (j := j) hsize
      (kernel.size_coeffs ▸ kernelOffset_le hi hj)
    simp only [windowPlace, Orientation.sign, Coordinate.Fits] at fits ⊢
    omega
  · simp only [windowPlace, Addressing.moved_moved, Orientation.sign]
    apply Prod.ext (by simp)
    simp only
    omega

theorem windowNextRow_yields {j : Nat} (hj : j < kernel.rows)
    (hmove : E .overflow ∨ s.addressing.Fits (s.addressing.moved place 0 (j + 1 : Nat) 0))
    (hkernel : E .overflow ∨ (kernel.coeffs.size : Int) ≤ Coordinate.greatest) :
    (s.windowNextRow kernel .rotated (s.windowPlace kernel place 0 j)).Yields E
      (· = s.windowPlace kernel place 0 (j + 1)) := by
  refine Check.Yields.bind ((s.addressing.nextRow_yields _ ?_).mono ?_)
  · simpa [windowPlace, Addressing.moved_moved] using hmove
  rintro _ rfl
  refine Check.Yields.bind (Coordinate.add_yields ?_ fun _ => Check.Yields.ok ?_)
  · apply hkernel.imp_right
    intro hsize
    have fits := kernelPlace_fits (i := kernel.cols) (j := j) hsize
      (kernel.size_coeffs ▸ kernelOffset_le (Nat.le_refl _) hj)
    simp only [windowPlace, Orientation.sign, Coordinate.Fits] at fits ⊢
    omega
  · simp only [windowPlace, Addressing.moved_moved, Orientation.sign]
    apply Prod.ext (by simp)
    simp only [Nat.succ_mul]
    omega

/-- One line of the window. The sum that it starts from and the sum `total` of the whole window
belong together when the lines still to come lead from one to the other. -/
theorem addLine_yields {j : Nat} (hj : j < kernel.rows) {total : Check (A.Value q)}
    {rest : A.Value q → Check (A.Value q)} {sum : A.Value q} {st : σ}
    (hpixel : ∀ i, i < kernel.cols → (pixel i j).Tolerable E → ∀ st, I st →
      Yields E (s.read (s.addressing.moved place i j 0)) st fun a st' =>
        I st' ∧ pixel i j = .ok a)
    (hmove : ∀ i, i ≤ kernel.cols →
      E .overflow ∨ s.addressing.Fits (s.addressing.moved place i j 0))
    (hkernel : E .overflow ∨ (kernel.coeffs.size : Int) ≤ Coordinate.greatest)
    (htotal : total.Tolerable E) (hst : I st)
    (hsum : sumLine h (pixel · j) (kernel.turned · j) kernel.cols 0 sum >>= rest = total) :
    Yields E (s.addLine h kernel .rotated (s.windowPlace kernel place 0 j) sum) st
      fun sum' st' => I st' ∧ rest sum' = total := by
  refine (sweep_yields (i := 0) (s.windowPlace kernel place · j)
    (P := fun i sum st => I st ∧
      sumLine h (pixel · j) (kernel.turned · j) (kernel.cols - i) i sum >>= rest = total)
    ?_ ?_ ⟨hst, hsum⟩).mono ?_
  · rintro i - hi sum st ⟨hst, hsum⟩
    obtain ⟨n, hn⟩ : ∃ n, kernel.cols - i = n + 1 := ⟨kernel.cols - i - 1, by omega⟩
    have hn' : kernel.cols - (i + 1) = n := by omega
    rw [hn, sumLine_succ] at hsum
    rw [hn']
    have tolerable := hsum ▸ htotal
    refine Yields.bind ((hpixel i (by omega) tolerable.of_bind.of_bind st hst).mono ?_)
    rintro value st' ⟨hst', hvalue⟩
    simp only [hvalue, Check.ok_bind] at hsum tolerable
    refine Yields.bind (Yields.probe_check (.of_tolerable tolerable.of_bind.of_bind ?_))
    intro coeff hcoeff
    change kernel.turned i j = _ at hcoeff
    simp only [hcoeff, Check.ok_bind] at hsum tolerable
    refine Yields.bind (Yields.probe_check (.of_tolerable tolerable.of_bind.of_bind ?_))
    intro product hproduct
    simp only [hproduct, Check.ok_bind] at hsum tolerable
    refine Yields.probe_check (.of_tolerable tolerable.of_bind.of_bind ?_)
    intro sum' hsum'
    simp only [hsum', Check.ok_bind] at hsum
    exact ⟨hst', hsum⟩
  · intro i _ hi st Q hQ
    refine Yields.probe_check ((windowNextCol_yields (by omega) hj (hmove _ (by omega))
      hkernel).mono ?_)
    rintro _ rfl
    exact hQ
  · rintro sum' st' ⟨hst', hsum'⟩
    refine ⟨hst', ?_⟩
    simpa [sumLine] using hsum'

theorem correlate2d_yields {st : σ}
    (hpixel : ∀ i j, i < kernel.cols → j < kernel.rows → (pixel i j).Tolerable E → ∀ st, I st →
      Yields E (s.read (s.addressing.moved place i j 0)) st fun a st' =>
        I st' ∧ pixel i j = .ok a)
    (hmove : ∀ i j, i ≤ kernel.cols → j ≤ kernel.rows →
      E .overflow ∨ s.addressing.Fits (s.addressing.moved place i j 0))
    (hkernel : E .overflow ∨ (kernel.coeffs.size : Int) ≤ Coordinate.greatest)
    (hsum : (kernel.sum h pixel).Tolerable E) (hst : I st) :
    Yields E (s.correlate2d h kernel .rotated place) st fun a st' =>
      I st' ∧ kernel.sum h pixel = .ok a := by
  have hstart : (place, kernel.start .rotated) = s.windowPlace kernel place 0 0 := by
    simp [windowPlace]
  unfold correlate2d
  rw [hstart]
  refine (sweep_yields (i := 0) (s.windowPlace kernel place 0 ·)
    (P := fun j sum st => I st ∧
      sumWindow h pixel kernel.turned kernel.cols (kernel.rows - j) j sum = kernel.sum h pixel)
    ?_ ?_ ⟨hst, rfl⟩).mono ?_
  · rintro j - hj sum st ⟨hst, hsum'⟩
    obtain ⟨n, hn⟩ : ∃ n, kernel.rows - j = n + 1 := ⟨kernel.rows - j - 1, by omega⟩
    have hn' : kernel.rows - (j + 1) = n := by omega
    rw [hn] at hsum'
    rw [hn']
    exact addLine_yields (by omega) (fun i hi => hpixel i j hi (by omega))
      (fun i hi => hmove i j hi (by omega)) hkernel hsum hst hsum'
  · intro j _ hj st Q hQ
    refine Yields.probe_check ((windowNextRow_yields (by omega)
      (hmove 0 (j + 1) (Nat.zero_le _) (by omega)) hkernel).mono ?_)
    rintro _ rfl
    exact hQ
  · rintro sum' st' ⟨hst', hsum'⟩
    refine ⟨hst', ?_⟩
    simpa [sumWindow] using hsum'.symm

end Window

end Sampler

end ImageViews
