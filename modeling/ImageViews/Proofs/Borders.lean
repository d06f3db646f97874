import ImageViews.Border
import ImageViews.Proofs.Moves

/-!
# Index maps of borders

Every border maps every coordinate into the axis, and leaves the coordinates of the axis where they
are. The only way to fail on an axis with pixels is a period that does not fit its word.
-/
namespace ImageViews.Border

variable {E : Fault → Prop} {i : Int} {len : Nat}

/-- What an index map does to the coordinate `i`: the index belongs to the axis, and it is `i`
itself if that belongs to the axis. -/
def Maps (i : Int) (len : Nat) (j : Nat) : Prop := j < len ∧ (0 ≤ i → i < len → (j : Int) = i)

theorem remainder_yields {period : Int} {Q : Int → Prop} (hperiod : 0 < period)
    (hQ : Q (i % period)) : (remainder i period).Yields E Q := by
  refine Check.Yields.bind (Check.Yields.require (.inr (by omega)) ?_)
  intro _
  refine Check.Yields.bind (Check.Yields.require (.inr (by omega)) ?_)
  intro _
  exact Check.Yields.ok hQ

/-- The index at which the reflections of `i` at the ends of the axis end, by a single remainder.
The pixel at an end is shown `edge` times in a row by its mirror image. -/
def folded (edge : Int) (len : Nat) (i : Int) : Int :=
  let period := 2 * len - 2 + 2 * edge
  if i % period < len then i % period else period - edge - i % period

theorem folded_of_inside {edge : Int} (hedge : edge = 0 ∨ edge = 1) (hlen : 2 ≤ len + edge)
    (nonneg : 0 ≤ i) (lt : i < len) : folded edge len i = i := by
  have same : i % (2 * len - 2 + 2 * edge) = i := Int.emod_eq_of_lt nonneg (by omega)
  simp only [folded, same, if_pos lt]

theorem folded_bounds {edge : Int} (hedge : edge = 0 ∨ edge = 1) (hlen : 2 ≤ len + edge) :
    0 ≤ folded edge len i ∧ folded edge len i < len := by
  have nonneg := Int.emod_nonneg i (b := 2 * (len : Int) - 2 + 2 * edge) (by omega)
  have lt := Int.emod_lt_of_pos i (b := 2 * (len : Int) - 2 + 2 * edge) (by omega)
  simp only [folded]
  split <;> omega

/-- The index of the coordinate `i` in integer arithmetic. -/
def position : Border → Int → Nat → Int
  | reflect, i, len => folded 1 len i
  | reflect101, i, len => if len = 1 then 0 else folded 0 len i
  | wrap, i, len => i % len
  | replicate, i, len | zero, i, len => max 0 (min i (len - 1))

theorem position_bounds (border : Border) (hlen : 0 < len) :
    0 ≤ border.position i len ∧ border.position i len < len := by
  cases border with
  | reflect => exact folded_bounds (.inr rfl) (by omega)
  | reflect101 =>
    simp only [position]
    split
    next => omega
    next => exact folded_bounds (.inl rfl) (by omega)
  | wrap => exact ⟨Int.emod_nonneg _ (by omega), Int.emod_lt_of_pos _ (by omega)⟩
  | replicate | zero =>
    simp only [position]
    omega

theorem position_of_inside (border : Border) (nonneg : 0 ≤ i) (lt : i < len) :
    border.position i len = i := by
  cases border with
  | reflect => exact folded_of_inside (.inr rfl) (by omega) nonneg lt
  | reflect101 =>
    simp only [position]
    split
    next => omega
    next => exact folded_of_inside (.inl rfl) (by omega) nonneg lt
  | wrap => exact Int.emod_eq_of_lt nonneg lt
  | replicate | zero =>
    simp only [position]
    omega

theorem reflectIndex_yields (hlen : 0 < len) (hle : (len : Int) ≤ Coordinate.greatest)
    (room : E .overflow ∨ Coordinate.Fits (2 * len)) :
    (reflectIndex i len).Yields E fun j => (j : Int) = folded 1 len i := by
  have bounds : 0 ≤ folded 1 len i ∧ folded 1 len i < len := folded_bounds (.inr rfl) (by omega)
  unfold reflectIndex
  split
  next hone =>
    apply Check.Yields.ok
    omega
  rw [Coordinate.ofExtent_of_le hle]
  refine Check.Yields.bind (Coordinate.mul_yields room ?_)
  intro fits
  refine Check.Yields.bind (remainder_yields (by omega) ?_)
  have nonneg := Int.emod_nonneg i (b := 2 * (len : Int)) (by omega)
  have lt := Int.emod_lt_of_pos i (b := 2 * (len : Int)) (by omega)
  have period : 2 * (len : Int) - 2 + 2 * 1 = 2 * len := by omega
  simp only [folded, period]
  split
  next hm =>
    apply Check.Yields.ok
    rw [Extent.ofCoordinate_of_nonneg nonneg, Int.toNat_of_nonneg nonneg]
  next hm =>
    unfold Coordinate.Fits Coordinate.least at fits
    refine Check.Yields.bind (Coordinate.sub_yields (.inr ?_) fun _ => ?_)
    · unfold Coordinate.Fits Coordinate.least
      omega
    refine Check.Yields.bind (Coordinate.sub_yields (.inr ?_) fun _ => Check.Yields.ok ?_)
    · unfold Coordinate.Fits Coordinate.least
      omega
    · rw [Extent.ofCoordinate_of_nonneg (by omega), Int.toNat_of_nonneg (by omega)]

theorem reflect101Index_yields (hlen : 0 < len) (hle : (len : Int) ≤ Coordinate.greatest)
    (room : E .overflow ∨ Coordinate.Fits (2 * len)) :
    (reflect101Index i len).Yields E fun j =>
      (j : Int) = if len = 1 then 0 else folded 0 len i := by
  unfold reflect101Index
  split
  next hone => exact Check.Yields.ok rfl
  rw [Coordinate.ofExtent_of_le hle]
  refine Check.Yields.bind (Coordinate.mul_yields room ?_)
  intro fits
  unfold Coordinate.Fits Coordinate.least at fits
  refine Check.Yields.bind (Coordinate.sub_yields (.inr ?_) fun _ => ?_)
  · unfold Coordinate.Fits Coordinate.least
    omega
  refine Check.Yields.bind (remainder_yields (by omega) ?_)
  have nonneg := Int.emod_nonneg i (b := 2 * (len : Int) - 2) (by omega)
  have lt := Int.emod_lt_of_pos i (b := 2 * (len : Int) - 2) (by omega)
  simp only [folded, Int.mul_zero, Int.add_zero, Int.sub_zero]
  split
  next hm =>
    apply Check.Yields.ok
    rw [Extent.ofCoordinate_of_nonneg nonneg, Int.toNat_of_nonneg nonneg]
  next hm =>
    refine Check.Yields.bind (Coordinate.sub_yields (.inr ?_) fun _ => Check.Yields.ok ?_)
    · unfold Coordinate.Fits Coordinate.least
      omega
    · rw [Extent.ofCoordinate_of_nonneg (by omega), Int.toNat_of_nonneg (by omega)]

theorem wrapIndex_yields (hlen : 0 < len) (hle : (len : Int) ≤ Coordinate.greatest) :
    (wrapIndex i len).Yields E fun j => (j : Int) = i % len := by
  unfold wrapIndex
  rw [Coordinate.ofExtent_of_le hle]
  refine Check.Yields.bind (remainder_yields (by omega) (Check.Yields.ok ?_))
  have nonneg := Int.emod_nonneg i (b := (len : Int)) (by omega)
  rw [Extent.ofCoordinate_of_nonneg nonneg, Int.toNat_of_nonneg nonneg]

theorem clampIndex_yields (hlen : 0 < len) (hle : (len : Int) ≤ Coordinate.greatest) :
    (clampIndex i len).Yields E fun j => (j : Int) = max 0 (min i (len - 1)) := by
  unfold clampIndex
  rw [Coordinate.ofExtent_of_le hle]
  refine Check.Yields.bind (Coordinate.sub_yields (.inr ?_) fun _ => ?_)
  · unfold Coordinate.Fits Coordinate.least
    omega
  refine Check.Yields.bind (Check.Yields.require (.inr (by omega)) ?_)
  intro _
  apply Check.Yields.ok
  rw [Extent.ofCoordinate_of_nonneg (by omega), Int.toNat_of_nonneg (by omega)]

theorem index_position (border : Border) (hlen : 0 < len)
    (hle : (len : Int) ≤ Coordinate.greatest)
    (room : E .overflow ∨ Coordinate.Fits (2 * len)) :
    (border.index i len).Yields E fun j => (j : Int) = border.position i len := by
  cases border with
  | reflect => exact reflectIndex_yields hlen hle room
  | reflect101 => exact reflect101Index_yields hlen hle room
  | wrap => exact wrapIndex_yields hlen hle
  | replicate | zero => exact clampIndex_yields hlen hle

theorem index_yields (border : Border) (hlen : 0 < len) (hle : (len : Int) ≤ Coordinate.greatest)
    (room : E .overflow ∨ Coordinate.Fits (2 * len)) :
    (border.index i len).Yields E (Maps i len) := by
  apply (border.index_position hlen hle room).mono
  intro j position
  have bounds := border.position_bounds (i := i) hlen
  refine ⟨by omega, fun nonneg lt => ?_⟩
  rw [position, border.position_of_inside nonneg lt]

theorem maps_of_index {border : Border} {j : Nat} (h : border.index i len = .ok j)
    (hlen : 0 < len) (hle : (len : Int) ≤ Coordinate.greatest) : Maps i len j :=
  (index_yields (E := fun _ => True) border hlen hle (.inl trivial)).value h

/-- A difference that is not refused is a coordinate. -/
theorem sub_fits (a b : Int) : (Coordinate.sub a b).Yields (fun _ => True) Coordinate.Fits :=
  Coordinate.sub_yields (.inl trivial) id

theorem remainder_fits {period : Int} (hperiod : Coordinate.Fits period) :
    (remainder i period).Yields (fun _ => True) Coordinate.Fits := by
  refine Check.Yields.bind (Check.Yields.require (.inl trivial) ?_)
  intro nonzero
  refine Check.Yields.bind (Check.Yields.require (.inl trivial) fun _ => Check.Yields.ok ?_)
  have nonneg := Int.emod_nonneg i nonzero
  have lt := Int.emod_lt i nonzero
  unfold Coordinate.Fits Coordinate.least Coordinate.greatest at *
  omega

theorem reflectIndex_lt :
    (reflectIndex i len).Yields (fun _ => True) (· < Extent.modulus) := by
  unfold reflectIndex
  split
  next => exact Check.Yields.ok (by decide)
  refine Check.Yields.bind (Coordinate.mul_yields (.inl trivial) ?_)
  intro period
  refine Check.Yields.bind ((remainder_fits period).mono ?_)
  intro m hm
  split
  next => exact Check.Yields.ok (Extent.ofCoordinate_lt hm)
  refine Check.Yields.bind ((sub_fits _ _).mono ?_)
  intro last _
  exact Check.Yields.bind ((sub_fits _ _).mono fun _ fits =>
    Check.Yields.ok (Extent.ofCoordinate_lt fits))

theorem reflect101Index_lt :
    (reflect101Index i len).Yields (fun _ => True) (· < Extent.modulus) := by
  unfold reflect101Index
  split
  next => exact Check.Yields.ok (by decide)
  refine Check.Yields.bind (Coordinate.mul_yields (.inl trivial) ?_)
  intro _
  refine Check.Yields.bind ((sub_fits _ _).mono ?_)
  intro _ period
  refine Check.Yields.bind ((remainder_fits period).mono ?_)
  intro m hm
  split
  next => exact Check.Yields.ok (Extent.ofCoordinate_lt hm)
  exact Check.Yields.bind ((sub_fits _ _).mono fun _ fits =>
    Check.Yields.ok (Extent.ofCoordinate_lt fits))

theorem clampIndex_lt : (clampIndex i len).Yields (fun _ => True) (· < Extent.modulus) := by
  refine Check.Yields.bind ((sub_fits _ _).mono ?_)
  intro last hlast
  refine Check.Yields.bind (Check.Yields.require (.inl trivial) fun nonneg =>
    Check.Yields.ok (Extent.ofCoordinate_lt ?_))
  unfold Coordinate.Fits Coordinate.least at *
  omega

/-- An index is a word, also on an axis that no signed word can measure. -/
theorem index_lt {border : Border} {j : Nat} (h : border.index i len = .ok j)
    (hlen : len < Extent.modulus) : j < Extent.modulus := by
  cases border with
  | reflect => exact reflectIndex_lt.value h
  | reflect101 => exact reflect101Index_lt.value h
  | wrap =>
    have word : (wrapIndex i len).Yields (fun _ => True) (· < Extent.modulus) :=
      Check.Yields.bind ((remainder_fits (Coordinate.ofExtent_fits hlen)).mono fun _ fits =>
        Check.Yields.ok (Extent.ofCoordinate_lt fits))
    exact word.value h
  | replicate | zero => exact clampIndex_lt.value h

end ImageViews.Border
