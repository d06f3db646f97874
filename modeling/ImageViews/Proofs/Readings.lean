import Mathlib.Algebra.BigOperators.GroupWithZero.Action
import Mathlib.Algebra.GroupWithZero.Action.Prod
import ImageViews.Pixel.Masked
import ImageViews.Pixel.Standard
import ImageViews.Proofs.Calm

/-!
# Exact arithmetic

Integer pixels are numbers as long as no product or sum leaves its range, and the validity of masked
pixels is a conjunction. Either is a module over the integers, and a reading sends pixels there such
that every operation that does not fault is exact. The sums of a filter become sums in the module,
where the order of evaluation does not matter.
-/
namespace ImageViews

open Finset

/-- Pixels as elements of a module and coefficients of the kind `k` as integers. -/
structure Reading (A : Arithmetic) (k : A.Coeff) (M : Type) [AddCommMonoid M]
    [DistribMulAction ℤ M] where
  pixel : {p : A.Pixel} → A.Value p → M
  coeff : A.Factor k → ℤ
  scale : ∀ {p q : A.Pixel} (h : A.product p k = some q) {v : A.Value p} {c : A.Factor k}
    {w : A.Value q}, A.scale h v c = .ok w → pixel w = coeff c • pixel v
  add : ∀ {p q : A.Pixel}, A.product p k = some q → ∀ {a b s : A.Value q}, A.add a b = .ok s →
    pixel s = pixel a + pixel b
  start : ∀ {p q : A.Pixel}, A.product p k = some q → pixel (A.start q) = 0
  one : coeff (A.one k) = 1
  times : ∀ {a b c : A.Factor k}, A.times a b = .ok c → coeff c = coeff a * coeff b
  injective : ∀ {p q : A.Pixel}, A.product p k = some q → ∀ {a b : A.Value q},
    pixel a = pixel b → a = b

namespace Reading

variable {A : Arithmetic} {k : A.Coeff} {M : Type} [AddCommMonoid M] [DistribMulAction ℤ M]
  (R : Reading A k M) {p q : A.Pixel} {h : A.product p k = some q}

/-- The pixel that a check gives, or zero. -/
def read (check : Check (A.Value p)) : M :=
  match check with
  | .ok v => R.pixel v
  | .error _ => 0

@[simp] theorem read_ok (v : A.Value p) : R.read (.ok v) = R.pixel v := rfl

/-- The coefficient that a check gives, or zero. -/
def factor (check : Check (A.Factor k)) : ℤ :=
  match check with
  | .ok c => R.coeff c
  | .error _ => 0

/-- A sum of products that does not fault is exact, and none of its pixels faults. -/
theorem sumLine_reads {pixel : ℕ → Check (A.Value p)} {coeff : ℕ → Check (A.Factor k)} {n i : ℕ}
    {sum a : A.Value q} (ha : sumLine h pixel coeff n i sum = .ok a) :
    R.pixel a = R.pixel sum + ∑ j ∈ range n, R.factor (coeff (i + j)) • R.read (pixel (i + j)) ∧
      ∀ j < n, ∃ v, pixel (i + j) = .ok v := by
  induction n generalizing i sum with
  | zero =>
    obtain rfl := Except.ok.inj ha
    exact ⟨by simp, by simp⟩
  | succ n ih =>
    simp only [sumLine_succ, Check.bind_eq_ok] at ha
    obtain ⟨v, hv, c, hc, w, hw, s, hs, rest⟩ := ha
    obtain ⟨total, all⟩ := ih rest
    constructor
    · have first : R.factor (coeff i) • R.read (pixel i) = R.pixel w := by
        rw [hc, hv]
        exact (R.scale h hw).symm
      have later (j : ℕ) : i + 1 + j = i + (j + 1) := by omega
      simp only [later] at total
      rw [total, R.add h hs, sum_range_succ', add_assoc, add_comm (R.pixel w), Nat.add_zero, first]
    · intro j hj
      cases j with
      | zero => exact ⟨v, hv⟩
      | succ j =>
        have later : i + 1 + j = i + (j + 1) := by omega
        exact later ▸ all j (by omega)

theorem sumWindow_reads {pixel : ℕ → ℕ → Check (A.Value p)} {coeff : ℕ → ℕ → Check (A.Factor k)}
    {cols n j : ℕ} {sum a : A.Value q} (ha : sumWindow h pixel coeff cols n j sum = .ok a) :
    R.pixel a = R.pixel sum + ∑ j' ∈ range n, ∑ i ∈ range cols,
        R.factor (coeff i (j + j')) • R.read (pixel i (j + j')) ∧
      ∀ j' < n, ∀ i < cols, ∃ v, pixel i (j + j') = .ok v := by
  induction n generalizing j sum with
  | zero =>
    obtain rfl := Except.ok.inj ha
    exact ⟨by simp, by simp⟩
  | succ n ih =>
    simp only [sumWindow, Check.bind_eq_ok] at ha
    obtain ⟨s, hs, rest⟩ := ha
    obtain ⟨total, all⟩ := ih rest
    obtain ⟨line, here⟩ := R.sumLine_reads hs
    simp only [Nat.zero_add] at line here
    constructor
    · have later (j' : ℕ) : j + 1 + j' = j + (j' + 1) := by omega
      simp only [later] at total
      rw [total, line, sum_range_succ', add_assoc, Nat.add_zero, add_comm (∑ i ∈ range cols, _)]
    · intro j' hj'
      cases j' with
      | zero => exact here
      | succ j' =>
        have later : j + 1 + j' = j + (j' + 1) := by omega
        exact later ▸ all j' (by omega)

/-- The sum over a kernel that does not fault. -/
theorem kernel_reads {kernel : Kernel (A.Factor k)} {pixel : ℕ → ℕ → Check (A.Value p)}
    {a : A.Value q} (ha : kernel.sum h pixel = .ok a) :
    R.pixel a = ∑ j ∈ range kernel.rows, ∑ i ∈ range kernel.cols,
        R.factor (kernel.turned i j) • R.read (pixel i j) ∧
      ∀ j < kernel.rows, ∀ i < kernel.cols, ∃ v, pixel i j = .ok v := by
  have reads := R.sumWindow_reads ha
  simpa only [Nat.zero_add, R.start h, zero_add] using reads

/-- The sum over a factor that does not fault. -/
theorem factor_reads {factor : List (A.Factor k)} {pixel : ℕ → Check (A.Value p)}
    {a : A.Value q} (ha : factorSum h factor pixel = .ok a) :
    R.pixel a = ∑ i ∈ range factor.length, R.factor (turnedFactor factor i) • R.read (pixel i) ∧
      ∀ i < factor.length, ∃ v, pixel i = .ok v := by
  have reads := R.sumLine_reads ha
  simpa only [Nat.zero_add, R.start h, zero_add] using reads

/-- The `i`-th coefficient of a reversed factor. An absent factor has the single coefficient
one. -/
def tap (factor : List (A.Factor k)) (i : ℕ) : ℤ :=
  R.coeff (factor.getD (max 1 factor.length - 1 - i) (A.one k))

theorem factor_turned {factor : List (A.Factor k)} {i : ℕ} (hi : i < factor.length) :
    R.factor (turnedFactor factor i) = R.tap factor i := by
  have last : max 1 factor.length - 1 - i = factor.length - 1 - i := by omega
  rw [turnedFactor_eq (by simpa using hi)]
  simp only [Reading.factor, tap, last]
  rw [List.getElem_reverse, List.getD_eq_getElem?_getD, List.getElem?_eq_getElem (by omega),
    Option.getD_some]

theorem tap_empty {factor : List (A.Factor k)} (h : factor.isEmpty = true) (i : ℕ) :
    R.tap factor i = 1 := by
  obtain rfl := List.isEmpty_iff.1 h
  exact R.one

/-- Half a turn takes a coefficient to the opposite column and row. -/
theorem turned_position {cols rows i j : ℕ} (hi : i < cols) (hj : j < rows) :
    (cols * rows - 1 - (j * cols + i)) % cols = cols - 1 - i ∧
      (cols * rows - 1 - (j * cols + i)) / cols = rows - 1 - j := by
  have back : cols * rows - 1 - (j * cols + i) = cols - 1 - i + cols * (rows - 1 - j) := by
    obtain ⟨c, rfl⟩ := Nat.exists_eq_add_of_lt hi
    obtain ⟨r, rfl⟩ := Nat.exists_eq_add_of_lt hj
    have : j + r + 1 - 1 - j = r := by omega
    have : i + c + 1 - 1 - i = c := by omega
    have expand : (i + c + 1) * (j + r + 1) =
        j * (i + c + 1) + (i + c + 1) * r + (i + c + 1) := by ring
    simp only [*]
    omega
  rw [back, Nat.add_mul_mod_self_left, Nat.add_mul_div_left _ _ (by omega)]
  exact ⟨Nat.mod_eq_of_lt (by omega), by rw [Nat.div_eq_of_lt (by omega), Nat.zero_add]⟩

/-- The rotated outer product multiplies the reversed factors. -/
theorem factor_outer {row col : List (A.Factor k)} {kernel : Kernel (A.Factor k)}
    (outer : Kernel.outer (A.one k) A.times row col = .ok kernel) {i j : ℕ}
    (hi : i < kernel.cols) (hj : j < kernel.rows) :
    R.factor (kernel.turned i j) = R.tap row i * R.tap col j := by
  obtain ⟨cells, hcells, made⟩ := Check.bind_eq_ok.1 outer
  obtain rfl := Except.ok.inj made
  have all := (tabulate_yields (E := fun _ => True) fun _ _ _ _ => trivial).value hcells
  have size := cells.size_toArray
  obtain ⟨column, line⟩ := turned_position hi hj
  obtain ⟨offset, turned⟩ := Kernel.turned_eq hi hj
  simp only at column line offset turned hi hj
  rw [turned]
  rw [size] at offset ⊢
  have inside : max 1 row.length * max 1 col.length - 1 - (j * max 1 row.length + i) <
      max 1 row.length * max 1 col.length := by omega
  have cell := all _ inside
  rw [column, line, fetchCell_of_lt (by omega)] at cell
  rw [fetchCell_of_lt (by omega)]
  exact R.times cell.symm

end Reading

end ImageViews
