import ImageViews.Proofs.Lookup

/-!
# Pixels of moderate evaluations

Where the arithmetic does not fault, the pixels of a moderate evaluation have values: the index maps
of borders are defined on axes of moderate length, and kernels are only read where they have
coefficients. The two ways of evaluating then tell the same pixels apart from those outside.
-/
namespace ImageViews

variable {E : Fault → Prop} {A : Arithmetic} {p : A.Pixel} {k : A.Coeff} {q : A.Pixel}

theorem sumLine_tolerable {h : A.product p k = some q} (total : A.Total h)
    {pixel : Nat → Check (A.Value p)} {coeff : Nat → Check (A.Factor k)} {n i : Nat}
    {sum : A.Value q}
    (hpixel : ∀ j, i ≤ j → j < i + n → (pixel j).Tolerable E)
    (hcoeff : ∀ j, i ≤ j → j < i + n → (coeff j).Tolerable E) :
    (sumLine h pixel coeff n i sum).Tolerable E := by
  induction n generalizing i sum with
  | zero => exact .ok _
  | succ n ih =>
    apply (hpixel i (Nat.le_refl _) (by omega)).bind
    intro value _
    apply (hcoeff i (Nat.le_refl _) (by omega)).bind
    intro factor _
    obtain ⟨product, hproduct⟩ := total.scale value factor
    obtain ⟨next, hnext⟩ := total.add sum product
    rw [hproduct, Check.ok_bind, hnext, Check.ok_bind]
    exact ih (fun j hj hj' => hpixel j (by omega) (by omega))
      fun j hj hj' => hcoeff j (by omega) (by omega)

theorem sumWindow_tolerable {h : A.product p k = some q} (total : A.Total h)
    {pixel : Nat → Nat → Check (A.Value p)} {coeff : Nat → Nat → Check (A.Factor k)}
    {cols n j : Nat} {sum : A.Value q}
    (hpixel : ∀ i j', i < cols → j ≤ j' → j' < j + n → (pixel i j').Tolerable E)
    (hcoeff : ∀ i j', i < cols → j ≤ j' → j' < j + n → (coeff i j').Tolerable E) :
    (sumWindow h pixel coeff cols n j sum).Tolerable E := by
  induction n generalizing j sum with
  | zero => exact .ok _
  | succ n ih =>
    refine (sumLine_tolerable total (fun i _ hi => ?_) fun i _ hi => ?_).bind fun sum _ => ?_
    · exact hpixel i j (by omega) (Nat.le_refl _) (by omega)
    · exact hcoeff i j (by omega) (Nat.le_refl _) (by omega)
    · exact ih (fun i j' hi hj hj' => hpixel i j' hi (by omega) (by omega))
        fun i j' hi hj hj' => hcoeff i j' hi (by omega) (by omega)

theorem sumWindow_congr {h : A.product p k = some q} {pixel pixel' : Nat → Nat → Check (A.Value p)}
    {coeff : Nat → Nat → Check (A.Factor k)} {cols n j : Nat} {sum : A.Value q}
    (same : ∀ i j', i < cols → j ≤ j' → j' < j + n → pixel i j' = pixel' i j') :
    sumWindow h pixel coeff cols n j sum = sumWindow h pixel' coeff cols n j sum := by
  induction n generalizing j sum with
  | zero => rfl
  | succ n ih =>
    have line : sumLine h (pixel · j) (coeff · j) cols 0 sum =
        sumLine h (pixel' · j) (coeff · j) cols 0 sum :=
      sumLine_congr fun i _ hi => same i j (by omega) (Nat.le_refl _) (by omega)
    simp only [sumWindow, line]
    refine bind_congr fun sum => ih fun i j' hi hj hj' => same i j' hi (by omega) (by omega)

/-- Half a turn takes a coefficient to the cell that lies as far from the last one. -/
theorem Kernel.turned_eq {κ : Type} {kernel : Kernel κ} {i j : Nat} (hi : i < kernel.cols)
    (hj : j < kernel.rows) : j * kernel.cols + i < kernel.coeffs.size ∧
      kernel.turned i j =
        fetchCell kernel.coeffs (kernel.coeffs.size - 1 - (j * kernel.cols + i)) := by
  have offset : j * kernel.cols + i < kernel.coeffs.size := by
    have last : j * kernel.cols + (i + 1) ≤ kernel.cols * kernel.rows :=
      Sampler.kernelOffset_le hi hj
    rw [kernel.size_coeffs]
    omega
  refine ⟨offset, ?_⟩
  unfold turned read
  rw [Extent.ofCoordinate_of_nonneg (by simp only [start]; omega)]
  congr 1
  simp only [start]
  omega

theorem Kernel.turned_tolerable {κ : Type} {kernel : Kernel κ} {i j : Nat} (hi : i < kernel.cols)
    (hj : j < kernel.rows) : (kernel.turned i j).Tolerable E := by
  obtain ⟨offset, turned⟩ := turned_eq hi hj
  rw [turned, fetchCell_of_lt (by omega)]
  exact .ok _

theorem Kernel.sum_tolerable {h : A.product p k = some q} (total : A.Total h)
    {kernel : Kernel (A.Factor k)} {pixel : Nat → Nat → Check (A.Value p)}
    (hpixel : ∀ i j, i < kernel.cols → j < kernel.rows → (pixel i j).Tolerable E) :
    (kernel.sum h pixel).Tolerable E :=
  sumWindow_tolerable total (fun i j hi _ hj => hpixel i j hi (by omega))
    fun i j hi _ hj => turned_tolerable hi (by omega)

namespace Border

variable {α : Type} {border : Border} {access : Access} {blank : α} {cols rows : Nat}
  {source : Int → Int → Check α} {x y : Int}

theorem value_tolerable (extent : cols ≤ quarter ∧ rows ≤ quarter)
    (h : ∀ u v, border.Reads access cols rows x y u v → (source u v).Tolerable E) :
    (border.value access blank cols rows source x y).Tolerable E := by
  by_cases inside : Inside access cols rows x y
  · rw [value_of_inside inside]
    exact h x y (.inside inside)
  by_cases hblank : border.Blank cols rows
  · rw [value_of_blank inside hblank]
    exact .ok _
  · rw [value_of_mapped inside hblank]
    have nonzero : cols ≠ 0 ∧ rows ≠ 0 :=
      ⟨fun none => hblank (.inr (.inl none)), fun none => hblank (.inr (.inr none))⟩
    refine (Tiler.index_tolerable (by omega) (double_le_greatest extent.1)).bind ?_
    intro column hcolumn
    refine (Tiler.index_tolerable (by omega) (double_le_greatest extent.2)).bind ?_
    intro row hrow
    exact h _ _ (.mapped inside hblank hcolumn hrow)

/-- The extent has no pixels, or signed words can measure it. -/
def Measurable (cols rows : Nat) : Prop :=
  cols = 0 ∨ rows = 0 ∨ (cols : Int) ≤ Coordinate.greatest ∧ (rows : Int) ≤ Coordinate.greatest

theorem measurable_of_le (extent : cols ≤ quarter ∧ rows ≤ quarter) : Measurable cols rows :=
  .inr (.inr ⟨le_greatest extent.1, le_greatest extent.2⟩)

/-- What counts as inside such an extent does not depend on the way of evaluating. -/
theorem inside_access (h : Measurable cols rows) :
    Inside access cols rows x y ↔ Inside .point cols rows x y := by
  cases access with
  | point => rfl
  | box =>
    have := Coordinate.ofExtent_le cols
    have := Coordinate.ofExtent_le rows
    simp only [Inside, Access.inside_box, Access.inside_point]
    rcases h with rfl | rfl | ⟨hcols, hrows⟩
    · omega
    · omega
    · rw [Coordinate.ofExtent_of_le hcols, Coordinate.ofExtent_of_le hrows]

theorem value_access (h : Measurable cols rows) :
    border.value access blank cols rows source x y =
      border.value .point blank cols rows source x y := by
  by_cases inside : Inside .point cols rows x y
  · rw [value_of_inside inside, value_of_inside ((inside_access h).2 inside)]
  have outside : ¬Inside access cols rows x y := fun h' => inside ((inside_access h).1 h')
  by_cases none : border.Blank cols rows
  · rw [value_of_blank inside none, value_of_blank outside none]
  · rw [value_of_mapped inside none, value_of_mapped outside none]

/-- The border gives the same pixel whenever the pixels that it reads are the same. -/
theorem value_congr {source' : Int → Int → Check α}
    (same : ∀ u v, border.Reads access cols rows x y u v → source u v = source' u v) :
    border.value access blank cols rows source x y =
      border.value access blank cols rows source' x y := by
  by_cases inside : Inside access cols rows x y
  · rw [value_of_inside inside, value_of_inside inside, same x y (.inside inside)]
  by_cases hblank : border.Blank cols rows
  · rw [value_of_blank inside hblank, value_of_blank inside hblank]
  · rw [value_of_mapped inside hblank, value_of_mapped inside hblank]
    cases hcolumn : border.index x cols with
    | error => rfl
    | ok column =>
      cases hrow : border.index y rows with
      | error => rfl
      | ok row => exact same _ _ (.mapped inside hblank hcolumn hrow)

end Border

theorem Kernel.sum_congr {h : A.product p k = some q} {kernel : Kernel (A.Factor k)}
    {pixel pixel' : Nat → Nat → Check (A.Value p)}
    (same : ∀ i j, i < kernel.cols → j < kernel.rows → pixel i j = pixel' i j) :
    kernel.sum h pixel = kernel.sum h pixel' :=
  sumWindow_congr fun i j hi _ hj => same i j hi (by omega)

namespace View

variable {access : Access} {x y : Int} {plane : Nat}

/-- The pixels of a moderate evaluation do not fault. -/
theorem value_tolerable {v : View A p} (sound : v.Sound) (calm : v.Calm)
    (modest : v.Modest x y) (holds : v.Holds x y) (hplane : plane < v.planes) :
    (v.value access x y plane).Tolerable E := by
  induction v generalizing x y with
  | image pixels => exact Image.value_tolerable holds hplane
  | strided grid => exact Strided.Sound.value_tolerable sound holds hplane
  | crop child x0 y0 cols rows ih => exact ih sound calm modest.of_crop holds hplane
  | extend child border ih =>
    have moderate := modest.of_extend
    have formed : child.WellFormed := sound
    exact Border.value_tolerable moderate.extent fun u v reads => ih formed.sound calm
      (moderate.modest reads) (reads.holds (formed.serves (Nat.zero_lt_of_lt hplane))) hplane
  | convolve child _ kernel anchor border ih =>
    cases border with
    | none =>
      exact Kernel.sum_tolerable calm.2 fun i j hi hj =>
        ih sound.1 calm.1 (modest.of_window hi hj) (holds i j hi hj) hplane
    | some border =>
      have moderate := modest.of_convolve
      refine Kernel.sum_tolerable calm.2 ?_
      intro i j hi hj
      exact Border.value_tolerable moderate.extent fun u v reads => ih sound.1.sound
        calm.1 (moderate.modest reads)
        (reads.holds (sound.1.serves (Nat.zero_lt_of_lt hplane))) hplane
  | separable =>
    exact modest.not_separable.elim

/-- Pixel by pixel or as a box, a moderate evaluation shows the same pixels. -/
theorem value_access {v : View A p} (modest : v.Modest x y) :
    v.value access x y plane = v.value .point x y plane := by
  induction v generalizing x y with
  | image | strided => rfl
  | crop child x0 y0 cols rows ih => exact ih modest.of_crop
  | extend child border ih =>
    have moderate := modest.of_extend
    simp only [value]
    rw [Border.value_access (Border.measurable_of_le moderate.extent)]
    exact Border.value_congr fun u v reads => ih (moderate.modest reads)
  | convolve child _ kernel anchor border ih =>
    cases border with
    | none => exact Kernel.sum_congr fun i j hi hj => ih (modest.of_window hi hj)
    | some border =>
      have moderate := modest.of_convolve
      apply Kernel.sum_congr
      intro i j hi hj
      rw [Border.value_access (Border.measurable_of_le moderate.extent)]
      exact Border.value_congr fun u v reads => ih (moderate.modest reads)
  | separable =>
    exact modest.not_separable.elim

end View

end ImageViews
