import ImageViews.Proofs.Moves

/-!
# Coordinates with room to spare

Places and corners are sums of a few terms: a start, a displacement along either axis, a plane. If
each term stays within a quarter of the greatest coordinate, then the sums fit.
-/
namespace ImageViews

variable {E : Fault → Prop}

/-- A quarter of the greatest coordinate. -/
def quarter : Nat := 0x1fffffffffffffff

theorem le_greatest {n : Nat} (h : n ≤ quarter) : (n : Int) ≤ Coordinate.greatest := by
  unfold quarter at h
  unfold Coordinate.greatest
  omega

theorem double_le_greatest {n : Nat} (h : n ≤ quarter) : (2 * n : Int) ≤ Coordinate.greatest := by
  unfold quarter at h
  unfold Coordinate.greatest
  omega

theorem Coordinate.ofExtent_of_quarter {n : Nat} (h : n ≤ quarter) : Coordinate.ofExtent n = n :=
  ofExtent_of_le (le_greatest h)

/-- What four terms within a quarter can sum to fits. -/
theorem Coordinate.fits_of_quarters {i : Int} (low : -(4 * quarter) ≤ i)
    (high : i ≤ 4 * quarter) : Fits i := by
  unfold quarter at low high
  unfold Fits least greatest
  omega

/-- A coordinate that stays within a quarter, also as a number of steps of the given length. -/
def Near (stride : Nat) (i : Int) : Prop := i.natAbs * max 1 stride ≤ quarter

instance (stride : Nat) (i : Int) : Decidable (Near stride i) := inferInstanceAs (Decidable (_ ≤ _))

namespace Near

variable {stride stride' : Nat} {i j : Int}

theorem mul (h : Near stride i) {s : Int} (hs : s.natAbs ≤ stride) :
    -quarter ≤ i * s ∧ i * s ≤ quarter := by
  have abs : (i * s).natAbs ≤ quarter := by
    rw [Int.natAbs_mul]
    refine Nat.le_trans (Nat.mul_le_mul_left _ ?_) h
    omega
  omega

theorem bounds (h : Near stride i) : -quarter ≤ i ∧ i ≤ quarter := by
  have pos := Nat.lt_of_lt_of_le Nat.one_pos (Nat.le_max_left 1 stride)
  have := Nat.le_mul_of_pos_right i.natAbs pos
  unfold Near at h
  omega

theorem mono (h : Near stride i) (hs : stride' ≤ stride) : Near stride' i :=
  Nat.le_trans (Nat.mul_le_mul_left _ (by omega)) h

theorem of_natAbs_le (h : Near stride i) (hi : j.natAbs ≤ i.natAbs) : Near stride j :=
  Nat.le_trans (Nat.mul_le_mul_right _ hi) h

theorem neg (h : Near stride i) : Near stride (-i) := h.of_natAbs_le (by omega)

theorem between {low high : Int} (hlow : Near stride low) (hhigh : Near stride high)
    (h : low ≤ i) (h' : i ≤ high) : Near stride i := by
  rcases Int.le_total 0 i with nonneg | nonpos
  · exact hhigh.of_natAbs_le (by omega)
  · exact hlow.of_natAbs_le (by omega)

end Near

namespace Addressing

/-- How far a step along a row and a step along a column lead. -/
def steps : Addressing → Nat × Nat
  | strides col row _ => (col.natAbs, row.natAbs)
  | coordinates => (0, 0)

/-- Neighbouring planes are neighbouring cells, or have a coordinate of their own. -/
def Planar : Addressing → Prop
  | strides _ _ plane => plane = 1
  | coordinates => True

/-- A displacement from a first cell whose terms have room to spare fits. -/
theorem fits_near {col row x y p : Int} (hx : Near col.natAbs x) (hy : Near row.natAbs y)
    (hp : -quarter ≤ p ∧ p ≤ quarter) :
    (strides col row 1).Fits ((strides col row 1).moved (0 : Int) x y p) := by
  obtain ⟨_, _⟩ := hx.mul (s := col) (Nat.le_refl _)
  obtain ⟨_, _⟩ := hy.mul (s := row) (Nat.le_refl _)
  have moved : Coordinate.Fits (0 + (x * col + y * row + p * 1)) :=
    Coordinate.fits_of_quarters (by omega) (by omega)
  exact moved

/-- An advance whose terms have room to spare reaches every place that fits. -/
theorem advance_near {a : Addressing} {place : a.Place} {x y p : Int} (planar : a.Planar)
    (hx : Near a.steps.1 x) (hy : Near a.steps.2 y) (hp : -quarter ≤ p ∧ p ≤ quarter)
    (fits : E .overflow ∨ a.Fits (a.moved place x y p)) :
    (a.advance place x y p).Tolerable E := by
  have reached : (a.advance place x y p).Yields E fun _ => True := by
    cases a with
    | strides col row plane =>
      obtain rfl : plane = 1 := planar
      have hcol := hx.mul (s := col) (Nat.le_refl _)
      have hrow := hy.mul (s := row) (Nat.le_refl _)
      have moved : E .overflow ∨ Coordinate.Fits ((place : Int) + (x * col + y * row + p * 1)) :=
        fits
      have small {i : Int} (h : -(4 * quarter) ≤ i ∧ i ≤ 4 * quarter) : Coordinate.Fits i :=
        Coordinate.fits_of_quarters h.1 h.2
      refine Check.Yields.bind (Coordinate.mul_yields (.inr (small (by omega))) ?_)
      intro _
      refine Check.Yields.bind (Coordinate.mul_yields (.inr (small (by omega))) ?_)
      intro _
      refine Check.Yields.bind (Coordinate.add_yields (.inr (small (by omega))) ?_)
      intro _
      refine Check.Yields.bind (Coordinate.mul_yields (.inr (small (by omega))) ?_)
      intro _
      refine Check.Yields.bind (Coordinate.add_yields (.inr (small (by omega))) ?_)
      intro _
      exact Coordinate.add_yields moved fun _ => trivial
    | coordinates =>
      refine Check.Yields.bind (Coordinate.add_yields (fits.imp_right (·.1)) ?_)
      intro _
      refine Check.Yields.bind (Coordinate.add_yields (fits.imp_right (·.2.1)) ?_)
      intro _
      exact Check.Yields.bind (Coordinate.add_yields (fits.imp_right (·.2.2)) fun _ => trivial)
  exact reached.tolerable

end Addressing

end ImageViews
