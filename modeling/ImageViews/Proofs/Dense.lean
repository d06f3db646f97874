import ImageViews.Proofs.Caching
import ImageViews.Proofs.Twins
import ImageViews.View.Filter

/-!
# Dense kernels

A separable filter read pixel by pixel is the convolution with the outer product of its factors.
Reading beside a slot of the memo is reading: it commutes with everything that a convolution does,
so the filter faults where the convolution faults, and gives the same pixel elsewhere.
-/
namespace ImageViews

namespace Kernel

variable {κ : Type} {one : κ} {times : κ → κ → Check κ} {row col : List κ} {kernel : Kernel κ}

/-- The coefficients of a factor. An absent factor has the single coefficient `one`. -/
def taps (one : κ) : List κ → List κ
  | [] => [one]
  | coeff :: coeffs => coeff :: coeffs

theorem length_taps (factor : List κ) : (taps one factor).length = max 1 factor.length := by
  cases factor with
  | nil => rfl
  | cons coeff coeffs => simp [taps]

theorem getElem?_taps {factor : List κ} {i : Nat} (hi : i < max 1 factor.length) :
    (taps one factor)[i]? = some (factor.getD i one) := by
  cases factor with
  | nil =>
    obtain rfl : i = 0 := by simpa using hi
    rfl
  | cons coeff coeffs =>
    have inside : i < (coeff :: coeffs).length := by simpa using hi
    simp [taps, List.getD_eq_getElem?_getD, List.getElem?_eq_getElem inside]

/-- The kernel has a column for each coefficient of the first factor, a row for each of the second,
and the products of the two as coefficients. -/
structure IsOuter (one : κ) (times : κ → κ → Check κ) (row col : List κ) (kernel : Kernel κ) :
    Prop where
  cols_eq : kernel.cols = max 1 row.length
  rows_eq : kernel.rows = max 1 col.length
  size_eq : kernel.coeffs.size = kernel.cols * kernel.rows
  product : ∀ {i j : Nat} {a b : κ}, (taps one row)[i]? = some a → (taps one col)[j]? = some b →
    ∃ c, times a b = .ok c ∧ kernel.get? i j = some c

/-- A kernel has no other coefficients than those of its columns and rows. -/
theorem ext_get {kernel' : Kernel κ} (cols : kernel.cols = kernel'.cols)
    (rows : kernel.rows = kernel'.rows)
    (same : ∀ i j, i < kernel.cols → j < kernel.rows → kernel.get? i j = kernel'.get? i j) :
    kernel = kernel' := by
  have coeffs : kernel.coeffs = kernel'.coeffs := by
    apply Array.ext_getElem?
    intro n
    by_cases hn : n < kernel.cols * kernel.rows
    · have here := same (n % kernel.cols) (n / kernel.cols) (Nat.mod_lt _ kernel.cols_pos)
        (Nat.div_lt_of_lt_mul hn)
      have offset : n / kernel.cols * kernel.cols + n % kernel.cols = n := by
        rw [Nat.mul_comm, Nat.div_add_mod]
      have inside : n % kernel.cols < kernel.cols ∧ n / kernel.cols < kernel.rows :=
        ⟨Nat.mod_lt _ kernel.cols_pos, Nat.div_lt_of_lt_mul hn⟩
      unfold get? at here
      rwa [← cols, ← rows, if_pos inside, if_pos inside, offset] at here
    · rw [Array.getElem?_eq_none (by rw [kernel.size_coeffs]; omega),
        Array.getElem?_eq_none (by rw [kernel'.size_coeffs, ← cols, ← rows]; omega)]
  cases kernel
  cases kernel'
  cases cols
  cases rows
  cases coeffs
  rfl

theorem IsOuter.unique {kernel' : Kernel κ} (h : kernel.IsOuter one times row col)
    (h' : kernel'.IsOuter one times row col) : kernel = kernel' := by
  refine ext_get (h.cols_eq.trans h'.cols_eq.symm) (h.rows_eq.trans h'.rows_eq.symm) ?_
  intro i j hi hj
  rw [h.cols_eq] at hi
  rw [h.rows_eq] at hj
  obtain ⟨c, times_eq, get_eq⟩ := h.product (getElem?_taps hi) (getElem?_taps hj)
  obtain ⟨c', times_eq', get_eq'⟩ := h'.product (getElem?_taps hi) (getElem?_taps hj)
  rw [get_eq, get_eq', Except.ok.inj (times_eq.symm.trans times_eq')]

theorem outer_yields {E : Fault → Prop}
    (h : ∀ a ∈ taps one row, ∀ b ∈ taps one col, (times a b).Tolerable E) :
    (outer one times row col).Yields E (IsOuter one times row col) := by
  have cells := tabulate_yields (E := E) (n := max 1 row.length * max 1 col.length)
    (f := fun c =>
      times (row.getD (c % max 1 row.length) one) (col.getD (c / max 1 row.length) one))
    fun c hc => h _ (List.mem_of_getElem? (getElem?_taps (Nat.mod_lt _ (by omega)))) _
      (List.mem_of_getElem? (getElem?_taps (Nat.div_lt_of_lt_mul hc)))
  refine Check.Yields.bind (cells.mono fun coeffs shows => ?_)
  refine Check.Yields.ok ⟨rfl, rfl, coeffs.size_toArray, ?_⟩
  intro i j a b ha hb
  have hi : i < max 1 row.length := length_taps row ▸ (List.getElem?_eq_some_iff.1 ha).1
  have hj : j < max 1 col.length := length_taps col ▸ (List.getElem?_eq_some_iff.1 hb).1
  have offset : j * max 1 row.length + i < max 1 row.length * max 1 col.length :=
    Sampler.kernelOffset_le (i := i + 1) hi hj
  have cell := shows (j * max 1 row.length + i) offset
  have column : (j * max 1 row.length + i) % max 1 row.length = i := by
    rw [Nat.mul_comm, Nat.mul_add_mod, Nat.mod_eq_of_lt hi]
  have line : (j * max 1 row.length + i) / max 1 row.length = j := by
    rw [Nat.mul_comm, Nat.mul_add_div (by omega), Nat.div_eq_of_lt hi, Nat.add_zero]
  have hfirst : row.getD i one = a := Option.some.inj ((getElem?_taps hi).symm.trans ha)
  have hsecond : col.getD j one = b := Option.some.inj ((getElem?_taps hj).symm.trans hb)
  rw [fetchCell_toArray offset, column, line, hfirst, hsecond] at cell
  refine ⟨_, cell.symm, ?_⟩
  simp only [get?, if_pos (And.intro hi hj)]
  simp [offset]

/-- The outer product is the kernel of the products of the coefficients. -/
theorem outer_eq_ok_iff :
    outer one times row col = .ok kernel ↔ kernel.IsOuter one times row col := by
  constructor
  · exact (outer_yields (E := Lenient) fun _ _ _ _ _ _ => trivial).value
  · intro h
    have products : ∀ a ∈ taps one row, ∀ b ∈ taps one col, (times a b).Tolerable Strict := by
      intro a ha b hb
      obtain ⟨i, hi⟩ := List.mem_iff_getElem?.1 ha
      obtain ⟨j, hj⟩ := List.mem_iff_getElem?.1 hb
      obtain ⟨c, times_eq, -⟩ := h.product hi hj
      rw [times_eq]
      exact .ok c
    obtain ⟨kernel', made⟩ := (outer_yields products).tolerable.succeeds
    rw [made, h.unique ((outer_yields products).value made)]

/-- The outer product exists when the product of any two coefficients does. -/
theorem exists_outer_iff : (∃ kernel, outer one times row col = .ok kernel) ↔
    ∀ a ∈ taps one row, ∀ b ∈ taps one col, ∃ c, times a b = .ok c := by
  constructor
  · rintro ⟨kernel, made⟩ a ha b hb
    obtain ⟨i, hi⟩ := List.mem_iff_getElem?.1 ha
    obtain ⟨j, hj⟩ := List.mem_iff_getElem?.1 hb
    obtain ⟨c, times_eq, -⟩ := (outer_eq_ok_iff.1 made).product hi hj
    exact ⟨c, times_eq⟩
  · intro products
    apply (outer_yields fun a ha b hb => ?_).tolerable.succeeds
    obtain ⟨c, times_eq⟩ := products a ha b hb
    rw [times_eq]
    exact .ok c

end Kernel

section Beside

variable {μ ν α β : Type}

namespace Probe

theorem besideSlot_bind (m : Probe (Trail μ) α) (f : α → Probe (Trail μ) β) :
    (m >>= f).besideSlot (ν := ν) = m.besideSlot >>= fun a => (f a).besideSlot := by
  apply ExceptT.ext
  funext trail
  change ((m >>= f).besideSlot (ν := ν)).run.run trail = (m.besideSlot >>= _).run.run trail
  rw [run_bind, Sampler.run_besideSlot, run_bind, Sampler.run_besideSlot]
  rcases m.run.run { memo := trail.memo.2, log := trail.log } with ⟨_ | a, rest⟩ <;> rfl

theorem besideSlot_sweep {π : Type} (step : π → Check π) (visit : Nat → π → β → Probe (Trail μ) β)
    (n i : Nat) (place : π) (acc : β) :
    (sweep step visit n i place acc).besideSlot (ν := ν) =
      sweep step (fun i place acc => (visit i place acc).besideSlot) n i place acc := by
  induction n generalizing i place acc with
  | zero => rfl
  | succ n ih =>
    simp only [sweep, besideSlot_bind, ih]
    rfl

end Probe

namespace Sampler

variable {A : Arithmetic} {p : A.Pixel} {k : A.Coeff} {q : A.Pixel}
  (s : Sampler (Trail μ) (A.Value p))

theorem besideSlot_correlate2d (h : A.product p k = some q) (kernel : Kernel (A.Factor k))
    (orientation : Orientation) (place : s.addressing.Place) :
    (s.correlate2d h kernel orientation place).besideSlot (ν := ν) =
      s.besideSlot.correlate2d h kernel orientation place := by
  unfold correlate2d addLine addTerm
  simp only [Probe.besideSlot_sweep, Probe.besideSlot_bind]
  rfl

theorem besideSlot_correlateWindow (h : A.product p k = some q) (kernel : Kernel (A.Factor k))
    (before : Int × Int) (x y : Int) (plane : Nat) :
    (s.correlateWindow h kernel before x y plane).besideSlot (ν := ν) =
      s.besideSlot.correlateWindow h kernel before x y plane := by
  unfold correlateWindow
  simp only [Probe.besideSlot_bind, besideSlot_correlate2d]
  rfl

theorem besideSlot_extend (border : Border) (blank : A.Value p) :
    (s.extend border blank).besideSlot (ν := ν) = s.besideSlot.extend border blank := by
  have pixel (x y : Int) (plane : Nat) :
      (border.pixel s blank x y plane).besideSlot (ν := ν) =
        border.pixel s.besideSlot blank x y plane := by
    unfold Border.pixel
    split
    next inside => exact (if_pos inside).symm
    next outside =>
      split
      next hblank => exact ((if_neg outside).trans (if_pos hblank)).symm
      next mapped =>
        simp only [Probe.besideSlot_bind]
        exact ((if_neg outside).trans (if_neg mapped)).symm
  simp only [extend, besideSlot, computed, pixel]

theorem besideSlot_convolveAt (h : A.product p k = some q) (kernel : Kernel (A.Factor k))
    {cols rows : Nat} (anchor : Anchor cols rows) (border : Option Border) (x y : Int)
    (plane : Nat) :
    (s.convolveAt h kernel anchor border x y plane).besideSlot (ν := ν) =
      s.besideSlot.convolveAt h kernel anchor border x y plane := by
  unfold convolveAt
  rw [Probe.besideSlot_bind]
  refine bind_congr fun inside => ?_
  rcases border with _ | border <;> rcases inside with _ | _
  · exact s.besideSlot_correlateWindow h kernel _ x y plane
  · exact s.besideSlot_correlateWindow h kernel _ x y plane
  · rw [besideSlot_correlateWindow, besideSlot_extend]
  · exact s.besideSlot_correlateWindow h kernel _ x y plane

variable {row col : List (A.Factor k)} {kernel : Kernel (A.Factor k)}

/-- Where the kernel is kept or can be built, the filter is the convolution with it. -/
theorem separable_outcome (outer : Kernel.outer (A.one k) A.times row col = .ok kernel)
    (h : A.product p k = some q) (anchor : Anchor (max 1 row.length) (max 1 col.length))
    (border : Border) (x y : Int) (plane : Nat)
    {trail : Trail (Option (Kernel (A.Factor k)) × μ)} (keeps : KeepsOuter row col trail.memo.1) :
    ∃ log, (((s.separable h row col anchor border).get x y plane).run.run trail).1 =
      ((s.convolveAt h kernel anchor (some border) x y plane).run.run
        { memo := trail.memo.2, log }).1 := by
  obtain ⟨slot, log, run, -⟩ := outerKernel_run keeps
  refine ⟨log, ?_⟩
  change ((outerKernel row col >>= fun kernel =>
    s.besideSlot.convolveAt h kernel anchor (some border) x y plane).run.run trail).1 = _
  rw [run_bind, run, outer]
  simp only
  rw [← besideSlot_convolveAt, run_besideSlot]

/-- A convolution depends on its anchor through the coefficients ahead of it. -/
theorem convolveAt_congr (h : A.product p k = some q) (kernel : Kernel (A.Factor k))
    {cols rows cols' rows' : Nat} {anchor : Anchor cols rows} {anchor' : Anchor cols' rows'}
    (same : anchor.before = anchor'.before) (border : Option Border) (x y : Int) (plane : Nat) :
    s.convolveAt h kernel anchor border x y plane =
      s.convolveAt h kernel anchor' border x y plane := by
  unfold convolveAt
  rw [same]

end Sampler

end Beside

namespace View

variable {A : Arithmetic} {p : A.Pixel} {k : A.Coeff} {q : A.Pixel}

/-- Point accesses have the same outcome, whatever kernels the two views keep. -/
def SampledAlike (v w : View A q) : Prop :=
  ∀ (x y : Int) (plane : Nat) (trail : Trail v.Memo) (trail' : Trail w.Memo), v.Keeps trail →
    w.Keeps trail' → ((v.get x y plane).run.run trail).1 = ((w.get x y plane).run.run trail').1

/-- The outcome of a point access does not depend on the kernels that are kept. -/
theorem sampledAlike_refl (v : View A q) : v.SampledAlike v := by
  intro x y plane trail trail' keeps keeps'
  obtain ⟨result, change, -, run⟩ := v.sampler_settled.get x y plane
  unfold Keeps at keeps keeps'
  rw [← v.cache_valid] at keeps keeps'
  unfold get
  rw [run trail keeps, run trail' keeps']

variable {child : View A p} {h : A.product p k = some q} {row col : List (A.Factor k)}
  {kernel : Kernel (A.Factor k)}

theorem separable_sampledAlike (outer : Kernel.outer (A.one k) A.times row col = .ok kernel)
    {anchor : Anchor (max 1 row.length) (max 1 col.length)}
    {anchor' : Anchor kernel.cols kernel.rows} (same : anchor.before = anchor'.before)
    (border : Border) :
    (child.separable h row col anchor border).SampledAlike
      (child.convolve h kernel anchor' (some border)) := by
  intro x y plane trail trail' keeps keeps'
  obtain ⟨log, outcome⟩ := child.sampler.separable_outcome outer h anchor border x y plane keeps.1
  refine outcome.trans ?_
  rw [child.sampler.convolveAt_congr h kernel same]
  exact sampledAlike_refl (child.convolve h kernel anchor' (some border)) x y plane _ trail' keeps.2
    keeps'

/-- A separable filter is sampled like the convolution with the outer product of its factors. The
outer product is the kernel of the products of the coefficients, and exists when they do. The middle
of the factors is the middle of the kernel, and a coefficient of it. -/
theorem separable_samples_outer (child : View A p) (h : A.product p k = some q)
    (row col : List (A.Factor k)) (border : Border) :
    ((∃ kernel, Kernel.outer (A.one k) A.times row col = .ok kernel) ↔
      ∀ a ∈ Kernel.taps (A.one k) row, ∀ b ∈ Kernel.taps (A.one k) col,
        ∃ c, A.times a b = .ok c) ∧
      child.separableConvolutionAt h row col ((row.length - 1) / 2) ((col.length - 1) / 2) border =
        .ok (child.separableConvolution h row col border) ∧
      ∀ kernel, Kernel.outer (A.one k) A.times row col = .ok kernel →
        kernel.IsOuter (A.one k) A.times row col ∧
        (kernel.center.col = (row.length - 1) / 2 ∧ kernel.center.row = (col.length - 1) / 2) ∧
        child.convolutionAt h kernel kernel.center.col kernel.center.row border =
          .ok (child.convolution h kernel border) ∧
        ∀ i j, i < max 1 row.length → j < max 1 col.length →
          ∃ v w, child.separableConvolutionAt h row col i j border = .ok v ∧
            child.convolutionAt h kernel i j border = .ok w ∧ v.SampledAlike w := by
  refine ⟨Kernel.exists_outer_iff, ?_, fun kernel outer => ?_⟩
  · unfold separableConvolutionAt
    rw [dif_pos (by omega), dif_pos (by omega)]
    rfl
  have isOuter := Kernel.outer_eq_ok_iff.1 outer
  obtain ⟨cols_eq, rows_eq⟩ := Kernel.outer_extent outer
  refine ⟨isOuter, ⟨?_, ?_⟩, ?_, fun i j hi hj => ?_⟩
  · simp only [Kernel.center, cols_eq]
    omega
  · simp only [Kernel.center, rows_eq]
    omega
  · exact dif_pos ⟨kernel.center.col_lt, kernel.center.row_lt⟩
  · have inside : i < kernel.cols ∧ j < kernel.rows := ⟨cols_eq ▸ hi, rows_eq ▸ hj⟩
    refine ⟨_, _, (dif_pos hi).trans (dif_pos hj), dif_pos inside, ?_⟩
    apply separable_sampledAlike outer
    simp only [Anchor.before, cols_eq, rows_eq]

section Example

/-- Two pixels in a row. -/
def twoPixels : View .standard PixelKind.u8 :=
  image (A := .standard) (p := PixelKind.u8)
    { cols := 2, rows := 1, planes := 1, cells := (#[5, 7] : Array UInt8), size_cells := rfl }
    .given

/-- The outer product of two coefficients with an absent factor. -/
def twoTaps : Kernel (Arithmetic.standard.Factor CoeffKind.i32) where
  cols := 2
  rows := 1
  coeffs := (#[1, 2] : Array Int32)
  cols_pos := by decide
  rows_pos := Nat.one_pos
  size_coeffs := rfl

theorem twoPixels_sampledAlike :
    Kernel.outer (1 : Int32) (CoeffKind.times (k := .i32)) [1, 2] [] = .ok twoTaps ∧
      ∃ v w : View .standard PixelKind.i32,
        separableConvolutionAt (A := .standard) (k := CoeffKind.i32) twoPixels rfl
          ([1, 2] : List Int32) [] 1 0 .reflect = .ok v ∧
        convolutionAt (A := .standard) (k := CoeffKind.i32) twoPixels rfl twoTaps 1 0 .reflect =
          .ok w ∧
        ((v.get 0 0 0).run.run { memo := Memo.empty v }).1 = .ok (17 : Int32) ∧
        ((w.get 0 0 0).run.run { memo := Memo.empty w }).1 = .ok (17 : Int32) := by
  have built : Kernel.outer (1 : Int32) (CoeffKind.times (k := .i32)) [1, 2] [] = .ok twoTaps := rfl
  obtain ⟨-, -, dense⟩ := separable_samples_outer (A := .standard) (k := CoeffKind.i32)
    (q := PixelKind.i32) twoPixels rfl ([1, 2] : List Int32) [] .reflect
  obtain ⟨-, -, -, sampled⟩ := dense twoTaps built
  obtain ⟨v, w, hv, hw, alike⟩ := sampled 1 0 (by decide) (by decide)
  have outcome : ((w.get 0 0 0).run.run { memo := Memo.empty w }).1 = .ok (17 : Int32) := by
    obtain rfl := Except.ok.inj hw
    rfl
  exact ⟨built, v, w, hv, hw, (alike 0 0 0 _ _ (keeps_empty v) (keeps_empty w)).trans outcome,
    outcome⟩

end Example

end View

end ImageViews
