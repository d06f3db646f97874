import ImageViews.Proofs.Prerasterized
import ImageViews.Proofs.Integers

/-!
# Two passes and the dense kernel

Point access sums a separable filter over the outer product of its factors, boxes sum it along the
rows and then along the columns. In exact arithmetic either is the same double sum, as long as
neither faults. Everything else that tells points and boxes apart is how they compare coordinates
with an extent, and that makes no difference for extents that fit signed words.
-/
namespace ImageViews

open Finset

namespace Reading

variable {A : Arithmetic} {k : A.Coeff} {M : Type} [AddCommMonoid M] [DistribMulAction ℤ M]
  (R : Reading A k M) {p q : A.Pixel} {h : A.product p k = some q} {row col : List (A.Factor k)}

/-- The pixel `a` is the sum over the window around `(x, y)`, and no pixel of the window faults. -/
def Sums (row col : List (A.Factor k)) (shift : ℤ × ℤ) (source : ℤ → ℤ → Check (A.Value p))
    (x y : ℤ) (a : A.Value q) : Prop :=
  R.pixel a = ∑ j ∈ range (max 1 col.length), ∑ i ∈ range (max 1 row.length),
      (R.tap row i * R.tap col j) • R.read (source (x - shift.1 + i) (y - shift.2 + j)) ∧
    ∀ j < max 1 col.length, ∀ i < max 1 row.length,
      ∃ v, source (x - shift.1 + i) (y - shift.2 + j) = .ok v

variable {shift : ℤ × ℤ} {source source' : ℤ → ℤ → Check (A.Value p)} {x y : ℤ} {a b : A.Value q}

theorem dense_sums (ha : denseSum h row col shift source x y = .ok a) :
    R.Sums row col shift source x y a := by
  obtain ⟨kernel, outer, sum⟩ := Check.bind_eq_ok.1 ha
  obtain ⟨cols_eq, rows_eq⟩ := Kernel.outer_extent outer
  obtain ⟨total, all⟩ := R.kernel_reads sum
  rw [cols_eq, rows_eq] at total all
  refine ⟨total.trans ?_, all⟩
  refine sum_congr rfl fun j hj => sum_congr rfl ?_
  intro i hi
  rw [mem_range] at hi hj
  rw [R.factor_outer outer (cols_eq ▸ hi) (rows_eq ▸ hj)]

/-- The sum over one factor, the absent one included. -/
theorem factor_sums {factor : List (A.Factor k)} (some : factor.isEmpty = false)
    {pixel : ℕ → Check (A.Value p)} (ha : factorSum h factor pixel = .ok a) :
    R.pixel a = ∑ i ∈ range (max 1 factor.length), R.tap factor i • R.read (pixel i) ∧
      ∀ i < max 1 factor.length, ∃ v, pixel i = .ok v := by
  have length : max 1 factor.length = factor.length :=
    Nat.max_eq_right (Tiler.length_pos some)
  obtain ⟨total, all⟩ := R.factor_reads ha
  rw [length]
  refine ⟨total.trans (sum_congr rfl fun i hi => ?_), all⟩
  rw [R.factor_turned (mem_range.1 hi)]

theorem max_length_of_empty {factor : List (A.Factor k)} (none : factor.isEmpty = true) :
    max 1 factor.length = 1 := by
  obtain rfl := List.isEmpty_iff.1 none
  rfl

theorem passes_sums (hx : row.isEmpty = true → shift.1 = 0) (hy : col.isEmpty = true → shift.2 = 0)
    (ha : twoPasses h row col shift source x y = .ok a) : R.Sums row col shift source x y a := by
  cases hrow : row.isEmpty <;> cases hcol : col.isEmpty
  case true.true =>
    rw [twoPasses_none hrow hcol] at ha
    obtain ⟨v, hv, hw⟩ := Check.bind_eq_ok.1 ha
    unfold Sums
    rw [max_length_of_empty hrow, max_length_of_empty hcol, hx hrow, hy hcol]
    constructor
    · simp [R.tap_empty hrow, R.tap_empty hcol, hv, R.scale h hw, R.one]
    · intro j hj i hi
      obtain rfl := Nat.lt_one_iff.1 hi
      obtain rfl := Nat.lt_one_iff.1 hj
      exact ⟨v, by simpa using hv⟩
  case false.true =>
    rw [twoPasses_row hrow hcol] at ha
    obtain ⟨total, all⟩ := R.factor_sums hrow ha
    unfold Sums
    rw [max_length_of_empty hcol, hy hcol]
    constructor
    · simp [total, R.tap_empty hcol]
    · intro j hj i hi
      obtain rfl := Nat.lt_one_iff.1 hj
      simpa using all i hi
  case true.false =>
    rw [twoPasses_col hrow hcol] at ha
    obtain ⟨total, all⟩ := R.factor_sums hcol ha
    unfold Sums
    rw [max_length_of_empty hrow, hx hrow]
    constructor
    · simp [total, R.tap_empty hrow]
    · intro j hj i hi
      obtain rfl := Nat.lt_one_iff.1 hi
      simpa using all j hj
  case false.false =>
    rw [twoPasses_both hrow hcol] at ha
    obtain ⟨total, lines⟩ := R.factor_sums hcol ha
    constructor
    · apply total.trans
      apply sum_congr rfl
      intro j hj
      obtain ⟨sum, hsum⟩ := lines j (mem_range.1 hj)
      rw [hsum, read_ok, (R.factor_sums hrow hsum).1, smul_sum]
      apply sum_congr rfl
      intro i _
      rw [smul_smul, mul_comm]
    · intro j hj
      obtain ⟨sum, hsum⟩ := lines j hj
      exact (R.factor_sums hrow hsum).2

/-- Sums over the same pixels are the same pixel. -/
theorem Sums.unique (ha : R.Sums row col shift source x y a)
    (hb : R.Sums row col shift source' x y b) (h : A.product p k = some q)
    (same : ∀ u v c d, source u v = .ok c → source' u v = .ok d → c = d) : a = b := by
  obtain ⟨total, all⟩ := ha
  obtain ⟨total', all'⟩ := hb
  refine R.injective h (total.trans (Eq.trans ?_ total'.symm))
  refine sum_congr rfl fun j hj => sum_congr rfl ?_
  intro i hi
  obtain ⟨c, hc⟩ := all j (mem_range.1 hj) i (mem_range.1 hi)
  obtain ⟨d, hd⟩ := all' j (mem_range.1 hj) i (mem_range.1 hi)
  rw [hc, hd, same _ _ c d hc hd]

include R in
/-- Sums over the same pixels are the same pixel, whatever the kernel. -/
theorem kernel_unique {kernel : Kernel (A.Factor k)} {pixel pixel' : ℕ → ℕ → Check (A.Value p)}
    (same : ∀ i j c d, pixel i j = .ok c → pixel' i j = .ok d → c = d)
    (ha : kernel.sum h pixel = .ok a) (hb : kernel.sum h pixel' = .ok b) : a = b := by
  have congr : kernel.sum h pixel = kernel.sum h pixel' := Kernel.sum_congr fun i j hi hj => by
    obtain ⟨c, hc⟩ := (R.kernel_reads ha).2 j hj i hi
    obtain ⟨d, hd⟩ := (R.kernel_reads hb).2 j hj i hi
    rw [hc, hd, same i j c d hc hd]
  exact Except.ok.inj (ha.symm.trans (congr.trans hb))

end Reading

namespace Border

variable {α : Type} {border : Border} {blank : α} {cols rows : ℕ}
  {source source' : ℤ → ℤ → Check α} {x y : ℤ} {a b : α}

/-- Points and boxes see the same pixel through a border if they see the same pixels inside. -/
theorem value_unique (measurable : Measurable cols rows)
    (same : ∀ u v c d, source u v = .ok c → source' u v = .ok d → c = d)
    (ha : border.value .box blank cols rows source x y = .ok a)
    (hb : border.value .point blank cols rows source' x y = .ok b) : a = b := by
  rw [value_access measurable] at ha
  by_cases inside : Inside .point cols rows x y
  · rw [value_of_inside inside] at ha hb
    exact same x y a b ha hb
  by_cases none : border.Blank cols rows
  · rw [value_of_blank inside none] at ha hb
    exact Except.ok.inj (ha.symm.trans hb)
  · simp only [value_of_mapped inside none, Check.bind_eq_ok] at ha hb
    obtain ⟨column, hcolumn, row, hrow, ha⟩ := ha
    obtain ⟨column', hcolumn', row', hrow', hb⟩ := hb
    obtain rfl := Except.ok.inj (hcolumn.symm.trans hcolumn')
    obtain rfl := Except.ok.inj (hrow.symm.trans hrow')
    exact same _ _ a b ha hb

end Border

namespace View

variable {A : Arithmetic} {p : A.Pixel}

/-- The filters have coefficients of integer arithmetic. -/
def Integral : {p : A.Pixel} → View A p → Prop
  | _, image .. | _, strided _ => True
  | _, crop child .. | _, extend child _ => child.Integral
  | _, convolve (k := k) child .. | _, separable (k := k) child .. =>
    child.Integral ∧ A.Integral k

/-- Signed words can measure what is read through a border. -/
def Measured : {p : A.Pixel} → View A p → Prop
  | _, image .. | _, strided _ => True
  | _, crop child .. | _, convolve child _ _ _ none => child.Measured
  | _, extend child _ | _, convolve child _ _ _ (some _) | _, separable child .. =>
    child.Measured ∧ Border.Measurable child.cols child.rows

/-- Where boxes and points have values in integer arithmetic, these are the same. -/
theorem box_eq_point {v : View A p} (integral : v.Integral) (measured : v.Measured) {x y : ℤ}
    {plane : ℕ} {a b : A.Value p} (ha : v.value .box x y plane = .ok a)
    (hb : v.value .point x y plane = .ok b) : a = b := by
  induction v generalizing x y with
  | image | strided => exact Except.ok.inj (ha.symm.trans hb)
  | crop child _ _ _ _ ih => exact ih integral measured ha hb
  | extend child border ih =>
    exact Border.value_unique measured.2 (fun u v c d hc hd => ih integral measured.1 hc hd) ha hb
  | convolve child hprod kernel anchor border ih =>
    obtain ⟨M, _, _, ⟨R⟩⟩ := integral.2.exact
    cases border with
    | none => exact R.kernel_unique (fun i j c d hc hd => ih integral.1 measured hc hd) ha hb
    | some border =>
      refine R.kernel_unique (fun i j c d hc hd => ?_) ha hb
      exact Border.value_unique measured.2
        (fun u v c d hc hd => ih integral.1 measured.1 hc hd) hc hd
  | separable child hprod row col anchor border ih =>
    obtain ⟨M, _, _, ⟨R⟩⟩ := integral.2.exact
    exact (R.passes_sums Anchor.shift_of_empty_row Anchor.shift_of_empty_col ha).unique R
      (R.dense_sums hb) hprod fun u v c d hc hd =>
        Border.value_unique measured.2 (fun u v c d hc hd => ih integral.1 measured.1 hc hd) hc hd

end View

end ImageViews
