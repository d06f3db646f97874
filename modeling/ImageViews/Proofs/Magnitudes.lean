import Mathlib.Algebra.BigOperators.Fin
import Mathlib.Algebra.BigOperators.Ring.Finset
import Mathlib.Algebra.Order.BigOperators.Group.Finset
import ImageViews.Proofs.Delivering
import ImageViews.Proofs.Dense
import ImageViews.Proofs.Folds
import ImageViews.Proofs.Integers

/-!
# Magnitudes of sums

The magnitude of a sum of products is at most that of the pixels times the mass of the
coefficients, and this holds for every part of the sum, in whatever order the products are added:
what is left of the coefficients bounds what the sum can still become. So a filter never leaves
the 32 bits of its sums where the greatest magnitude of a pixel times the mass of the kernel does
not. Floating point sums round instead of leaving their range, so they count as nothing.
-/
namespace ImageViews

open Finset

variable {E : Fault → Prop} {p q : PixelKind} {k : CoeffKind}

namespace Integer32

/-- The greatest number of 32 bits. -/
def greatest : ℕ := 0x7fffffff

theorem checked_yields {i : ℤ} (h : i.natAbs ≤ greatest) :
    (checked i).Yields E fun w => w.toInt = i := by
  have range : -0x80000000 ≤ i ∧ i ≤ 0x7fffffff := by
    unfold greatest at h
    omega
  have made : checked i = .ok (Int32.ofInt i) := if_pos range
  rw [made]
  exact Check.Yields.ok (checked_eq_ok made)

end Integer32

/-- The absolute value of an integer coefficient. -/
def CoeffKind.weight : {k : CoeffKind} → k.Value → ℕ
  | i32, (c : Int32) => c.toInt.natAbs
  | f32, _ | f64, _ => 0

/-- The sum of the absolute values of a factor. -/
def CoeffKind.mass (factor : List k.Value) : ℕ := (factor.map weight).sum

open CoeffKind

namespace PixelKind

/-- The absolute value of an integer pixel. -/
def size (v : p.Value) : ℕ := (toInt v).natAbs

theorem size_zero (p : PixelKind) : size p.zero = 0 := by
  cases p <;> rfl

theorem size_zero_le (p : PixelKind) (M : ℕ) : size p.zero ≤ M :=
  (size_zero p).trans_le (Nat.zero_le M)

theorem scale_yields (h : p.product k = some q) {v : p.Value} {c : k.Value}
    (room : weight c * size v ≤ Integer32.greatest) :
    (PixelKind.scale h v c).Yields E fun w => size w ≤ weight c * size v := by
  by_cases float : k ≠ .i32
  · unfold PixelKind.scale
    split <;> first | exact absurd rfl float | exact Check.Yields.ok (Nat.zero_le _)
  obtain rfl : k = .i32 := Decidable.of_not_not float
  obtain rfl := product_i32 h
  have product : (c.toInt * toInt v).natAbs = weight c * size v := Int.natAbs_mul _ _
  rw [scale_eq_checked h]
  apply (Integer32.checked_yields (product ▸ room)).mono
  intro w hw
  exact Nat.le_of_eq ((congrArg Int.natAbs hw).trans product)

theorem add_yields (h : p.product k = some q) {a b : q.Value}
    (room : size a + size b ≤ Integer32.greatest) :
    (PixelKind.add a b).Yields E fun s => size s ≤ size a + size b := by
  have sum := Int.natAbs_add_le (toInt a) (toInt b)
  cases q with
  | i32 =>
    apply (Integer32.checked_yields (sum.trans room)).mono
    intro s hs
    exact (congrArg Int.natAbs hs).trans_le sum
  | f32 | f64 => exact Check.Yields.ok (Nat.zero_le _)
  | u8 | u16 | i16 => cases p <;> cases k <;> cases h

/-- A sum stays within the bound as long as what it is and what it can still become do. -/
theorem sums_within {h : p.product k = some q} {M N : ℕ} (small : N ≤ Integer32.greatest)
    {coeffs : List k.Value} {sum : q.Value} (room : size sum + mass coeffs * M ≤ N) :
    Sums (A := .standard) E (fun v => size v ≤ M) (fun s => size s ≤ N) h coeffs sum := by
  induction coeffs generalizing sum with
  | nil => simpa [mass, Sums] using room
  | cons c coeffs ih =>
    intro v hv
    have term : weight c * size v ≤ weight c * M := Nat.mul_le_mul_left _ hv
    have split : mass (c :: coeffs) * M = weight c * M + mass coeffs * M := by
      simp [mass, Nat.add_mul]
    apply (scale_yields h (by omega)).mono
    intro product hproduct
    apply (add_yields h (by omega)).mono
    intro sum' hsum'
    exact ih (by omega)

end PixelKind

namespace Kernel

/-- The coefficients are those of all columns and rows. -/
theorem sum_coeffs {κ : Type} (kernel : Kernel κ) (f : κ → ℕ) :
    (kernel.coeffs.toList.map f).sum =
      ∑ j : Fin kernel.rows, ∑ i : Fin kernel.cols, f (kernel.coeff i j) := by
  have size : kernel.rows * kernel.cols = kernel.coeffs.size :=
    (Nat.mul_comm _ _).trans kernel.size_coeffs.symm
  have cells : kernel.coeffs.toList.map f =
      List.ofFn fun c : Fin (kernel.rows * kernel.cols) => f kernel.coeffs[Fin.cast size c] :=
    List.ext_getElem (by simp [size]) (by simp)
  rw [cells, List.sum_ofFn, ← Equiv.sum_comp finProdFinEquiv, Fintype.sum_prod_type]
  simp [coeff, Nat.add_comm, Nat.mul_comm]

/-- The sum of the absolute values of all coefficients. -/
def mass (kernel : Kernel k.Value) : ℕ :=
  ∑ j : Fin kernel.rows, ∑ i : Fin kernel.cols, weight (kernel.coeff i j)

end Kernel

namespace CoeffKind

theorem times_yields {a b : k.Value} (room : weight a * weight b ≤ Integer32.greatest) :
    (times a b).Yields E fun c => weight c ≤ weight a * weight b := by
  cases k with
  | i32 =>
    have product : (a.toInt * b.toInt).natAbs = weight a * weight b := Int.natAbs_mul _ _
    apply (Integer32.checked_yields (product ▸ room)).mono
    intro c hc
    exact Nat.le_of_eq ((congrArg Int.natAbs hc).trans product)
  | f32 | f64 => exact Check.Yields.ok (Nat.zero_le _)

theorem weight_one_le : weight (one k) ≤ 1 := by
  cases k <;> simp [weight, one]

theorem mass_reverse (factor : List k.Value) : mass factor.reverse = mass factor := by
  rw [mass, List.map_reverse, List.sum_reverse, mass]

/-- The sum along a line of pixels up to a bound. -/
theorem factor_sums {hq : p.product k = some q} {factor : List k.Value} {M N : ℕ}
    (room : max 1 (mass factor) * M ≤ N) (small : N ≤ Integer32.greatest) :
    Sums (A := .standard) E (fun v => PixelKind.size v ≤ M) (fun s => PixelKind.size s ≤ N) hq
      factor.reverse q.zero := by
  apply PixelKind.sums_within small
  rw [PixelKind.size_zero, Nat.zero_add, mass_reverse]
  exact (Nat.mul_le_mul_right M (Nat.le_max_right _ _)).trans room

theorem weight_le_mass {factor : List k.Value} {c : k.Value} (h : c ∈ factor) :
    weight c ≤ mass factor :=
  List.single_le_sum (fun _ _ => Nat.zero_le _) _ (List.mem_map_of_mem h)

end CoeffKind

namespace Kernel

variable {row col : List k.Value}

theorem mass_reading (kernel : Kernel k.Value) : CoeffKind.mass kernel.reading = kernel.mass := by
  rw [reading, CoeffKind.mass_reverse, CoeffKind.mass, sum_coeffs, mass]

/-- The mass of a factor that may be absent. -/
theorem mass_taps_le (factor : List k.Value) :
    CoeffKind.mass (taps (CoeffKind.one k) factor) ≤ max 1 (CoeffKind.mass factor) := by
  cases factor with
  | nil => simpa [taps, CoeffKind.mass] using CoeffKind.weight_one_le
  | cons c coeffs => exact Nat.le_max_right _ _

/-- A coefficient of the outer product weighs what its factors weigh together. -/
theorem IsOuter.weight_coeff_le {kernel : Kernel k.Value}
    (outer : kernel.IsOuter (CoeffKind.one k) CoeffKind.times row col)
    (room : ∀ a ∈ taps (CoeffKind.one k) row, ∀ b ∈ taps (CoeffKind.one k) col,
      weight a * weight b ≤ Integer32.greatest)
    (i : Fin kernel.cols) (j : Fin kernel.rows) {a b : k.Value}
    (ha : (taps (CoeffKind.one k) row)[i]? = some a)
    (hb : (taps (CoeffKind.one k) col)[j]? = some b) :
    weight (kernel.coeff i j) ≤ weight a * weight b := by
  obtain ⟨c, times_eq, get_eq⟩ := outer.product ha hb
  have same : kernel.coeff i j = c := by
    rw [get?, if_pos ⟨i.isLt, j.isLt⟩] at get_eq
    obtain ⟨_, cell⟩ := Array.getElem?_eq_some_iff.1 get_eq
    exact cell
  rw [same]
  exact (CoeffKind.times_yields (E := Lenient)
    (room a (List.mem_of_getElem? ha) b (List.mem_of_getElem? hb))).value times_eq

/-- The mass of an outer product is at most the product of the masses. -/
theorem IsOuter.mass_le {kernel : Kernel k.Value}
    (outer : kernel.IsOuter (CoeffKind.one k) CoeffKind.times row col)
    (room : ∀ a ∈ taps (CoeffKind.one k) row, ∀ b ∈ taps (CoeffKind.one k) col,
      weight a * weight b ≤ Integer32.greatest) :
    kernel.mass ≤ CoeffKind.mass (taps (CoeffKind.one k) row) *
      CoeffKind.mass (taps (CoeffKind.one k) col) := by
  have term := outer.weight_coeff_le room
  have cols_eq : kernel.cols = (taps (CoeffKind.one k) row).length :=
    outer.cols_eq.trans (length_taps row).symm
  have rows_eq : kernel.rows = (taps (CoeffKind.one k) col).length :=
    outer.rows_eq.trans (length_taps col).symm
  clear outer
  obtain ⟨cols, rows, coeffs, cols_pos, rows_pos, size⟩ := kernel
  dsimp only at cols_eq rows_eq term
  subst cols_eq rows_eq
  generalize taps (CoeffKind.one k) row = row at *
  generalize taps (CoeffKind.one k) col = col at *
  calc _ ≤ ∑ j : Fin col.length, ∑ i : Fin row.length, weight row[i] * weight col[j] :=
        Finset.sum_le_sum fun j _ => Finset.sum_le_sum fun i _ =>
          term i j (List.getElem?_eq_getElem i.isLt) (List.getElem?_eq_getElem j.isLt)
    _ = CoeffKind.mass row * CoeffKind.mass col := by
        rw [Finset.sum_comm, ← Finset.sum_mul_sum, CoeffKind.mass, CoeffKind.mass]
        simp

/-- The sum over a window of pixels up to a bound. -/
theorem reading_sums {kernel : Kernel k.Value} {hq : p.product k = some q} {M N : ℕ}
    (room : kernel.mass * M ≤ N) (small : N ≤ Integer32.greatest) :
    Sums (A := .standard) E (fun v => PixelKind.size v ≤ M) (fun s => PixelKind.size s ≤ N) hq
      kernel.reading q.zero := by
  apply PixelKind.sums_within small
  rwa [PixelKind.size_zero, Nat.zero_add, kernel.mass_reading]

end Kernel

/-- The pixels have a bound, and the products of two factors with an absent one read as one keep to
another bound. -/
structure Budget (row col : List k.Value) (M N : ℕ) : Prop where
  pos : 1 ≤ M
  room : max 1 (mass row) * max 1 (mass col) * M ≤ N
  small : N ≤ Integer32.greatest

namespace Budget

variable {row col : List k.Value} {M N : ℕ} (h : Budget row col M N)

include h

theorem masses_le : max 1 (mass row) * max 1 (mass col) ≤ Integer32.greatest :=
  calc max 1 (mass row) * max 1 (mass col)
      ≤ max 1 (mass row) * max 1 (mass col) * M := Nat.le_mul_of_pos_right _ h.pos
    _ ≤ Integer32.greatest := h.room.trans h.small

/-- The outer product exists, and its mass is within the budget. -/
theorem outer_yields :
    (Kernel.outer (CoeffKind.one k) CoeffKind.times row col).Yields E fun kernel =>
      kernel.mass * M ≤ N := by
  have masses := Nat.mul_le_mul (Kernel.mass_taps_le row) (Kernel.mass_taps_le col)
  have products : ∀ a ∈ Kernel.taps (CoeffKind.one k) row, ∀ b ∈ Kernel.taps (CoeffKind.one k) col,
      weight a * weight b ≤ Integer32.greatest := fun a ha b hb =>
    ((Nat.mul_le_mul (weight_le_mass ha) (weight_le_mass hb)).trans masses).trans h.masses_le
  have tolerable : ∀ a ∈ Kernel.taps (CoeffKind.one k) row,
      ∀ b ∈ Kernel.taps (CoeffKind.one k) col, (CoeffKind.times a b).Tolerable E :=
    fun a ha b hb => (times_yields (products a ha b hb)).tolerable
  apply (Kernel.outer_yields tolerable).mono
  intro kernel outer
  exact (Nat.mul_le_mul_right M ((outer.mass_le products).trans masses)).trans h.room

theorem outer_sums (hq : p.product k = some q) :
    (Kernel.outer (CoeffKind.one k) CoeffKind.times row col).Yields E fun kernel =>
      Sums (A := .standard) E (fun v => PixelKind.size v ≤ M) (fun s => PixelKind.size s ≤ N) hq
        kernel.reading q.zero :=
  h.outer_yields.mono fun _ room => Kernel.reading_sums room h.small

/-- Every pass is within the budget. Between two passes a pixel has used up the first factor. -/
theorem passes (hq : p.product k = some q) :
    Tiler.Passes (A := .standard) E (fun v => PixelKind.size v ≤ M)
      (fun s => PixelKind.size s ≤ N) hq row col := by
  have row_le : max 1 (mass row) * M ≤ N :=
    (Nat.mul_le_mul_right M (Nat.le_mul_of_pos_right _ (by omega))).trans h.room
  have col_le : max 1 (mass col) * M ≤ N :=
    (Nat.mul_le_mul_right M (Nat.le_mul_of_pos_left _ (by omega))).trans h.room
  constructor
  · intro _ _ v hv
    have scaled : weight (one k) * PixelKind.size v ≤ N :=
      calc weight (one k) * PixelKind.size v ≤ 1 * M := Nat.mul_le_mul weight_one_le hv
        _ ≤ N := (Nat.mul_le_mul_right M (Nat.le_max_left _ _)).trans row_le
    apply (PixelKind.scale_yields hq (scaled.trans h.small)).mono
    intro s hs
    exact hs.trans scaled
  · exact fun _ _ => factor_sums row_le h.small
  · exact fun _ _ => factor_sums col_le h.small
  · intro _ _
    refine ⟨fun s => PixelKind.size s ≤ max 1 (mass row) * M, ?_, ?_, ?_⟩
    · exact PixelKind.size_zero_le q _
    · exact factor_sums (Nat.le_refl _) (row_le.trans h.small)
    · refine factor_sums ?_ h.small
      rw [← Nat.mul_assoc, Nat.mul_comm (max 1 (mass col))]
      exact h.room

end Budget

theorem overflow_lax : Lax (· ≠ .pixelOverflow) := by
  rintro _ spatial rfl
  exact spatial

namespace View

theorem origin_spatial {A : Arithmetic} {p : A.Pixel} (v : View A p) :
    v.sampler.origin.Spatial := by
  induction v with
  | image pixels => exact .bind pixels.strided_spatial fun _ => .ok _
  | strided | extend | convolve | separable => exact .ok _
  | crop child _ _ _ _ ih => exact .bind ih fun _ => Addressing.advance_spatial _ _ _ _ _

/-- However the view is read, no product and no sum of pixels or of coefficients leaves its 32 bits,
and the pixels that it gives keep to the bound: at any coordinates and at any place of a cursor,
whatever kernels are kept, and for any box, handle, cells and log. -/
structure StaysWithin {p : Arithmetic.standard.Pixel} (v : View .standard p) (N : ℕ) : Prop where
  get : ∀ x y plane trail, v.Keeps trail →
    Yields (· ≠ .pixelOverflow) (v.get x y plane) trail fun a trail' =>
      v.Keeps trail' ∧ PixelKind.size a ≤ N
  read : ∀ place trail, v.Keeps trail →
    Yields (· ≠ .pixelOverflow) (v.sampler.read place) trail fun a trail' =>
      v.Keeps trail' ∧ PixelKind.size a ≤ N
  rasterize : ∀ ⦃n : ℕ⦄ (handle : Handle n) box cells log,
    Yields (Failure.Allowed (· ≠ .pixelOverflow)) (v.rasterize handle box) (cells, log) fun _ s =>
      Overwrites (fun a => PixelKind.size a ≤ N) cells s.1

namespace StaysWithin

variable {p q : Arithmetic.standard.Pixel} {k : Arithmetic.standard.Coeff}
  {v child : View .standard p} {M N : ℕ}

theorem of_gives
    (sampler : v.sampler.Gives (· ≠ .pixelOverflow) v.Keeps fun a => PixelKind.size a ≤ N)
    (tiler : v.tiler.Delivers (· ≠ .pixelOverflow) fun a => PixelKind.size a ≤ N) :
    v.StaysWithin N := ⟨sampler.get, sampler.read, tiler⟩

theorem gives (h : v.StaysWithin N) :
    v.sampler.Gives (· ≠ .pixelOverflow) v.Keeps fun a => PixelKind.size a ≤ N :=
  ⟨v.origin_spatial, h.get, h.read⟩

theorem delivers (h : v.StaysWithin N) :
    v.tiler.Delivers (· ≠ .pixelOverflow) fun a => PixelKind.size a ≤ N := h.rasterize

theorem image {pixels : Image (Arithmetic.standard.Value p)} {provenance : Provenance}
    (h : ∀ a ∈ pixels.cells, PixelKind.size a ≤ N) :
    (View.image (A := .standard) pixels provenance).StaysWithin N :=
  of_gives (Sampler.image_gives overflow_lax h) (Tiler.image_delivers overflow_lax h)

theorem strided {grid : Strided (Arithmetic.standard.Value p)}
    (h : ∀ a ∈ grid.cells, PixelKind.size a ≤ N) :
    (View.strided (A := .standard) grid).StaysWithin N :=
  of_gives (Sampler.strided_gives overflow_lax h) (Tiler.strided_delivers overflow_lax h)

theorem crop (h : child.StaysWithin N) (x0 y0 : ℤ) (cols rows : ℕ) :
    (child.crop x0 y0 cols rows).StaysWithin N :=
  of_gives (h.gives.crop overflow_lax x0 y0 cols rows)
    (h.delivers.crop overflow_lax x0 y0 cols rows)

theorem extend (h : child.StaysWithin N) (border : Border) :
    (child.extend border).StaysWithin N :=
  of_gives (h.gives.extend overflow_lax border (PixelKind.size_zero_le _ _))
    (h.delivers.extended overflow_lax (PixelKind.size_zero_le _ _) border)

variable (hq : Arithmetic.standard.product p k = some q)

theorem convolve (h : child.StaysWithin M) {kernel : Kernel (Arithmetic.standard.Factor k)}
    (room : kernel.mass * M ≤ N) (small : N ≤ Integer32.greatest)
    (anchor : Anchor kernel.cols kernel.rows) (border : Option Border) :
    (child.convolve hq kernel anchor border).StaysWithin N :=
  of_gives
    (h.gives.convolve overflow_lax (Kernel.reading_sums room small) anchor border
      fun _ => PixelKind.size_zero_le _ _)
    (h.delivers.convolve overflow_lax (PixelKind.size_zero_le _ _)
      (Kernel.reading_sums room small) anchor border)

theorem separable (h : child.StaysWithin M) {row col : List (Arithmetic.standard.Factor k)}
    (budget : Budget row col M N) (anchor : Anchor (max 1 row.length) (max 1 col.length))
    (border : Border) : (child.separable hq row col anchor border).StaysWithin N := by
  have sampler := h.gives.separable overflow_lax (fun _ _ _ kept => kept) (budget.outer_sums hq)
    anchor border (PixelKind.size_zero_le _ _)
  exact of_gives sampler (h.delivers.separable overflow_lax child.tiler_serves
    (PixelKind.size_zero_le _ _) (budget.passes hq) border)

end StaysWithin

/-- No pixel of the view is greater than the bound in magnitude: no stored pixel of those that it is
made from, and for each filter the pixels of its source times the mass of its coefficients, which
keep to 32 bits. -/
def Within : {p : PixelKind} → View .standard p → ℕ → Prop
  | _, image pixels _, M => ∀ a ∈ pixels.cells, PixelKind.size a ≤ M
  | _, strided grid, M => ∀ a ∈ grid.cells, PixelKind.size a ≤ M
  | _, crop child .., M | _, extend child _, M => child.Within M
  | _, convolve (k := k) child _ kernel _ _, N =>
    ∃ M, child.Within M ∧ Kernel.mass (k := k) kernel * M ≤ N ∧ N ≤ Integer32.greatest
  | _, separable (k := k) child _ row col _ _, N =>
    ∃ M, child.Within M ∧ Budget (k := k) row col M N

theorem Within.staysWithin {p : Arithmetic.standard.Pixel} {v : View .standard p} {N : ℕ}
    (h : v.Within N) : v.StaysWithin N := by
  induction v generalizing N with
  | image pixels => exact .image h
  | strided grid => exact .strided h
  | crop child x0 y0 cols rows ih => exact (ih h).crop x0 y0 cols rows
  | extend child border ih => exact (ih h).extend border
  | convolve child hq kernel anchor border ih =>
    obtain ⟨M, within, room, small⟩ := h
    exact (ih within).convolve hq room small anchor border
  | separable child hq row col anchor border ih =>
    obtain ⟨M, within, budget⟩ := h
    exact (ih within).separable hq budget anchor border

/-- A view of stored pixels keeps to the greatest of them. A filter over a view that keeps to a
bound does so too, where the bound times the mass of the kernel keeps to 32 bits, or the bound times
the masses of two factors, an absent one counted as one. This holds wherever the filter is anchored,
and of the coefficients of the dense kernel of two factors as well. -/
theorem integer_sums_fit {p q : Arithmetic.standard.Pixel} {M : ℕ}
    (h : Arithmetic.standard.product p CoeffKind.i32 = some q) (pos : 1 ≤ M) :
    (∀ child : View .standard p, child.Within M → child.StaysWithin M) ∧
    ∀ child : View .standard p, child.StaysWithin M →
      (∀ (kernel : Kernel Int32) (anchor : Anchor kernel.cols kernel.rows)
        (border : Option Border), kernel.mass (k := .i32) * M ≤ Integer32.greatest →
          (convolve (A := .standard) (k := CoeffKind.i32) child h kernel anchor border).StaysWithin
            (kernel.mass (k := .i32) * M)) ∧
      ∀ (row col : List Int32) (anchor : Anchor (max 1 row.length) (max 1 col.length))
        (border : Border),
        let N := max 1 (mass (k := .i32) row) * max 1 (mass (k := .i32) col) * M
        let v := separable (A := .standard) (k := CoeffKind.i32) child h row col anchor border
        N ≤ Integer32.greatest → v.StaysWithin N ∧ ∀ trail, v.Keeps trail → ∃ kernel trail',
          (Sampler.outerKernel (A := .standard) (k := CoeffKind.i32) row col).run.run trail =
              (.ok kernel, trail') ∧
            kernel.IsOuter (1 : Int32) Integer32.mul row col ∧ kernel.mass (k := .i32) * M ≤ N := by
  refine ⟨fun child within => within.staysWithin, fun child stays => ⟨?_, ?_⟩⟩
  · intro kernel anchor border small
    exact stays.convolve h (Nat.le_refl _) small anchor border
  · intro row col anchor border N v small
    have budget : Budget (k := .i32) row col M N := ⟨pos, Nat.le_refl _, small⟩
    have outer := budget.outer_yields (E := Strict)
    refine ⟨stays.separable h budget anchor border, fun trail keeps => ?_⟩
    obtain ⟨slot, log, run, -⟩ := Sampler.outerKernel_run keeps.1
    obtain ⟨kernel, made⟩ := outer.tolerable.succeeds
    refine ⟨kernel, _, run.trans (congrArg (·, _) made), Kernel.outer_eq_ok_iff.1 made, ?_⟩
    exact outer.value made

section Example

/-- Two pixels, of which one is as bright as eight bits allow. -/
def brightPair : View .standard PixelKind.u8 :=
  image (A := .standard) (p := PixelKind.u8)
    { cols := 2, rows := 1, planes := 1, cells := (#[255, 3] : Array UInt8), size_cells := rfl }
    .given

/-- The pair under factors that almost exhaust 32 bits. -/
def sharpPair : View .standard PixelKind.i32 :=
  separable (A := .standard) (p := PixelKind.u8) (k := CoeffKind.i32) brightPair
    PixelKind.product_u8 ([-2000, 901] : List Int32) ([2902] : List Int32)
    { col := 0, row := 0, col_lt := by decide, row_lt := by decide } .replicate

theorem sharpPair_sums_fit : sharpPair.StaysWithin 2146769010 ∧
    ((sharpPair.get 0 0 0).run.run { memo := Memo.empty sharpPair }).1 =
      .ok (-813270990 : Int32) := by
  have within : brightPair.Within 255 := by
    intro a ha
    exact Nat.le_of_lt_succ a.toNat_lt
  obtain ⟨stored, filters⟩ := integer_sums_fit (p := PixelKind.u8) (q := PixelKind.i32) (M := 255)
    rfl (by decide)
  obtain ⟨-, separables⟩ := filters brightPair (stored brightPair within)
  have stays := (separables [-2000, 901] [2902]
    { col := 0, row := 0, col_lt := by decide, row_lt := by decide } .replicate (by decide)).1
  exact ⟨stays, rfl⟩

end Example

end View

end ImageViews
