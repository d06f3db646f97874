import ImageViews.Proofs.Borders

/-!
# Unfolding mirrors

A mirror at either end of an axis takes a coordinate outside to one nearer to its middle, so
reflecting again and again ends on the axis. The closed form of an index map does not change under
a reflection, nor under a shift by a period, hence it is where the reflections end. The coordinates
are integers of any size here; only the length of the axis has to leave room for a period.
-/
namespace ImageViews.Border

variable {edge : Int} {len : Nat} {i : Int}

/-- The coordinate after one reflection at the nearer end of the axis. The mirror image shows the
pixel at the end `edge` more times. -/
def reflection (edge : Int) (len : Nat) (i : Int) : Int :=
  if i < 0 then -i - edge else 2 * len - 2 + edge - i

/-- Reflecting the coordinate until it lies on the axis ends at the index. -/
inductive Unfolds (edge : Int) (len : Nat) : Int → Nat → Prop
  | inside {j : Nat} : j < len → Unfolds edge len j j
  | reflected {i : Int} {j : Nat} :
    ¬(0 ≤ i ∧ i < len) → Unfolds edge len (reflection edge len i) j → Unfolds edge len i j

/-- A reflection takes a coordinate outside the axis nearer to its middle, so the reflections
end. -/
theorem exists_unfolds (hedge : edge = 0 ∨ edge = 1) (hlen : 2 ≤ len) (i : Int) :
    ∃ j, Unfolds edge len i j := by
  by_cases inside : 0 ≤ i ∧ i < len
  · obtain ⟨j, rfl⟩ := Int.eq_ofNat_of_zero_le inside.1
    exact ⟨j, .inside (by omega)⟩
  · have nearer : (2 * reflection edge len i - (len - 1)).natAbs < (2 * i - (len - 1)).natAbs := by
      unfold reflection
      split <;> omega
    obtain ⟨j, h⟩ := exists_unfolds hedge hlen (reflection edge len i)
    exact ⟨j, .reflected inside h⟩
termination_by (2 * i - (len - 1)).natAbs

theorem folded_add_period : folded edge len (i + (2 * len - 2 + 2 * edge)) = folded edge len i := by
  simp only [folded, Int.add_emod_right]

section Folding

variable (hedge : edge = 0 ∨ edge = 1) (hlen : 2 ≤ len + edge)

include hedge hlen

/-- A coordinate and its mirror image at the first pixel have the same index. -/
theorem folded_neg : folded edge len (-i - edge) = folded edge len i := by
  have nonneg := Int.emod_nonneg i (b := 2 * (len : Int) - 2 + 2 * edge) (by omega)
  have lt := Int.emod_lt_of_pos i (b := 2 * (len : Int) - 2 + 2 * edge) (by omega)
  have turned : (-i - edge) % (2 * len - 2 + 2 * edge) =
      (2 * len - 2 + 2 * edge - edge - i % (2 * len - 2 + 2 * edge)) %
        (2 * len - 2 + 2 * edge) := by
    have quotient := Int.emod_add_mul_ediv i (2 * len - 2 + 2 * edge)
    have shifted : -i - edge = 2 * len - 2 + 2 * edge - edge - i % (2 * len - 2 + 2 * edge) +
        (2 * len - 2 + 2 * edge) * (-(i / (2 * len - 2 + 2 * edge)) - 1) := by
      rw [Int.mul_sub, Int.mul_neg]
      omega
    rw [shifted, Int.add_mul_emod_self_left]
  simp only [folded, turned]
  generalize i % (2 * len - 2 + 2 * edge) = m at *
  by_cases first : m = 0 ∧ edge = 0
  · -- the first pixel is its own image, and a whole period is left
    obtain ⟨rfl, rfl⟩ := first
    simp
  · rw [Int.emod_eq_of_lt (by omega) (by omega)]
    split <;> split <;> omega

theorem folded_reflection : folded edge len (reflection edge len i) = folded edge len i := by
  unfold reflection
  split
  · exact folded_neg hedge hlen
  · have shifted : 2 * len - 2 + edge - i = -i - edge + (2 * len - 2 + 2 * edge) := by omega
    rw [shifted, folded_add_period, folded_neg hedge hlen]

/-- Reflections that end, end at the closed form. -/
theorem Unfolds.eq_folded {j : Nat} (h : Unfolds edge len i j) : (j : Int) = folded edge len i := by
  induction h with
  | inside lt => exact (folded_of_inside hedge hlen (by omega) (by omega)).symm
  | reflected _ _ ih => rw [ih, folded_reflection hedge hlen]

end Folding

theorem unfolds_iff (hedge : edge = 0 ∨ edge = 1) (hlen : 2 ≤ len) {j : Nat} :
    Unfolds edge len i j ↔ (j : Int) = folded edge len i := by
  constructor
  · exact Unfolds.eq_folded hedge (by omega)
  · intro h
    obtain ⟨j', h'⟩ := exists_unfolds hedge hlen i
    have := h'.eq_folded hedge (by omega)
    obtain rfl : j = j' := by omega
    exact h'

section Index

variable {border : Border} {j : Nat} (pos : 1 ≤ len) (half : 2 * (len : Int) ≤ Coordinate.greatest)

include pos half

theorem index_eq (i : Int) : border.index i len = .ok (border.position i len).toNat := by
  have found := border.index_position (E := Strict) (i := i) pos (by omega) (.inr (by
    unfold Coordinate.Fits Coordinate.least
    omega))
  apply Check.Yields.eq_ok
  apply found.mono
  omega

theorem index_eq_iff : border.index i len = .ok j ↔ (j : Int) = border.position i len := by
  have bounds := border.position_bounds (i := i) pos
  rw [index_eq pos half, Except.ok.injEq]
  omega

/-- Coordinates of one position have one index. -/
theorem index_congr {i' : Int} (same : border.position i' len = border.position i len) :
    border.index i' len = border.index i len := by
  rw [index_eq pos half, index_eq pos half, same]

theorem reflect_symmetric (i : Int) : reflect.index (-1 - i) len = reflect.index i len ∧
    reflect.index (i + 2 * len) len = reflect.index i len := by
  have image : -1 - i = -i - 1 := by omega
  have period : i + 2 * (len : Int) = i + (2 * len - 2 + 2 * 1) := by omega
  constructor
  · apply index_congr pos half
    simp only [position, image]
    exact folded_neg (.inr rfl) (by omega)
  · apply index_congr pos half
    simp only [position, period, folded_add_period]

theorem reflect101_symmetric (two : 2 ≤ len) (i : Int) :
    reflect101.index (-i) len = reflect101.index i len ∧
      reflect101.index (i + 2 * len - 2) len = reflect101.index i len := by
  have some : len ≠ 1 := by omega
  have image : -i = -i - 0 := by omega
  have period : i + 2 * (len : Int) - 2 = i + (2 * len - 2 + 2 * 0) := by omega
  constructor
  · apply index_congr pos half
    simp only [position, if_neg some]
    rw [image, folded_neg (.inl rfl) (by omega)]
  · apply index_congr pos half
    simp only [position, if_neg some, period, folded_add_period]

theorem wrap_periodic (i : Int) : wrap.index (i + len) len = wrap.index i len := by
  apply index_congr pos half
  simp only [position, Int.add_emod_right]

/-- No index of the axis is nearer to the coordinate than the one it is clamped to. -/
theorem clamp_nearest (clamps : border = replicate ∨ border = zero)
    (found : border.index i len = .ok j) {n : Nat} (hn : n < len) :
    (i - j).natAbs ≤ (i - n).natAbs := by
  rw [index_eq_iff pos half] at found
  rcases clamps with rfl | rfl
  · simp only [position] at found
    omega
  · simp only [position] at found
    omega

theorem reflect_unfolds (two : 2 ≤ len) :
    reflect.index i len = .ok j ↔ Unfolds 1 len i j := by
  rw [index_eq_iff pos half, unfolds_iff (.inr rfl) two]
  rfl

theorem reflect101_unfolds (two : 2 ≤ len) :
    reflect101.index i len = .ok j ↔ Unfolds 0 len i j := by
  have some : len ≠ 1 := by omega
  rw [index_eq_iff pos half, unfolds_iff (.inl rfl) two]
  simp only [position, if_neg some]

end Index

/-- Every index map is the closed form of its border: it is defined for every coordinate, has the
symmetries of the border, and for the mirrors it is where the reflections end. -/
theorem index_closed_form (pos : 1 ≤ len) (half : 2 * (len : Int) ≤ Coordinate.greatest)
    (i : Int) :
    (∀ border : Border, ∃ j, border.index i len = .ok j ∧ j < len ∧
      (0 ≤ i → i < len → (j : Int) = i)) ∧
    (reflect.index (-1 - i) len = reflect.index i len ∧
      reflect.index (i + 2 * len) len = reflect.index i len) ∧
    (2 ≤ len → reflect101.index (-i) len = reflect101.index i len ∧
      reflect101.index (i + 2 * len - 2) len = reflect101.index i len) ∧
    wrap.index (i + len) len = wrap.index i len ∧
    (∀ border j, border = replicate ∨ border = zero → border.index i len = .ok j →
      ∀ n : Nat, n < len → (i - j).natAbs ≤ (i - n).natAbs) ∧
    (2 ≤ len → (∀ j, reflect.index i len = .ok j ↔ Unfolds 1 len i j) ∧
      (∀ j, reflect101.index i len = .ok j ↔ Unfolds 0 len i j) ∧
      (∃ j, Unfolds 1 len i j) ∧ ∃ j, Unfolds 0 len i j) ∧
    (len = 1 → ∀ border : Border, border.index i len = .ok 0) := by
  refine ⟨fun border => ?_, reflect_symmetric pos half i, fun two => ?_, wrap_periodic pos half i,
    fun border j clamps found n hn => ?_, fun two => ⟨fun j => ?_, fun j => ?_, ?_, ?_⟩,
    fun one border => ?_⟩
  · have bounds := border.position_bounds (i := i) pos
    refine ⟨_, index_eq pos half i, by omega, fun nonneg lt => ?_⟩
    rw [border.position_of_inside nonneg lt]
    omega
  · exact reflect101_symmetric pos half two i
  · exact clamp_nearest pos half clamps found hn
  · exact reflect_unfolds pos half two
  · exact reflect101_unfolds pos half two
  · exact exists_unfolds (.inr rfl) two i
  · exact exists_unfolds (.inl rfl) two i
  · have bounds := border.position_bounds (i := i) pos
    rw [index_eq_iff pos half]
    omega

/-- From the least coordinate the reflections about the ends of four pixels end at the third one. -/
theorem least_unfolds : (1 ≤ 4 ∧ 2 * ((4 : Nat) : Int) ≤ Coordinate.greatest) ∧
    reflect101.index Coordinate.least 4 = .ok 2 ∧ Unfolds 0 4 Coordinate.least 2 ∧
      reflect.index Coordinate.least 4 = .ok 0 ∧ Unfolds 1 4 Coordinate.least 0 := by
  have room : 1 ≤ 4 ∧ 2 * ((4 : Nat) : Int) ≤ Coordinate.greatest := by decide
  obtain ⟨-, -, -, -, -, mirrors, -⟩ := index_closed_form room.1 room.2 Coordinate.least
  obtain ⟨repeated, single, -⟩ := mirrors (by decide)
  have third : reflect101.index Coordinate.least 4 = .ok 2 := by rfl
  have first : reflect.index Coordinate.least 4 = .ok 0 := by rfl
  exact ⟨room, third, (single 2).1 third, first, (repeated 0).1 first⟩

end ImageViews.Border
