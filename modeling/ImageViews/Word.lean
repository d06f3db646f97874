import ImageViews.Failure

/-!
# Coordinates and extents

Coordinates are signed 64-bit words and are written as integers; extents, indices and lengths are
unsigned 64-bit words and are written as natural numbers. Arithmetic whose result leaves the word
faults. A conversion between the two kinds keeps the bits, so it changes a value exactly when
that value does not fit the other kind.
-/
namespace ImageViews

namespace Coordinate

/-- The least coordinate. -/
def least : Int := -0x8000000000000000

/-- The greatest coordinate. -/
def greatest : Int := 0x7fffffffffffffff

/-- The values that fit a coordinate. -/
def Fits (i : Int) : Prop := least ≤ i ∧ i ≤ greatest

instance (i : Int) : Decidable (Fits i) := inferInstanceAs (Decidable (_ ∧ _))

/-- Accepts the values that fit. -/
def checked (i : Int) : Check Int := if Fits i then .ok i else .error .overflow

def add (a b : Int) : Check Int := checked (a + b)
def sub (a b : Int) : Check Int := checked (a - b)
def mul (a b : Int) : Check Int := checked (a * b)
def neg (a : Int) : Check Int := checked (-a)

/-- The coordinate with the bits of an extent. -/
def ofExtent (n : Nat) : Int :=
  if n < 0x8000000000000000 then n else (n : Int) - 0x10000000000000000

theorem checked_eq_ok {i j : Int} : checked i = .ok j ↔ Fits i ∧ i = j := by
  unfold checked
  split <;> simp_all

theorem checked_of_fits {i : Int} (h : Fits i) : checked i = .ok i := checked_eq_ok.2 ⟨h, rfl⟩

theorem ofExtent_of_lt {n : Nat} (h : n < 0x8000000000000000) : ofExtent n = n := if_pos h

end Coordinate

namespace Extent

/-- The number of extents. -/
def modulus : Nat := 0x10000000000000000

/-- Accepts the values that fit. -/
def checked (n : Nat) : Check Nat := if n < modulus then .ok n else .error .overflow

def add (a b : Nat) : Check Nat := checked (a + b)
def mul (a b : Nat) : Check Nat := checked (a * b)

def sub (a b : Nat) : Check Nat := if b ≤ a then .ok (a - b) else .error .overflow

/-- The extent with the bits of a coordinate. -/
def ofCoordinate (i : Int) : Nat := if 0 ≤ i then i.toNat else (i + 0x10000000000000000).toNat

theorem checked_eq_ok {n m : Nat} : checked n = .ok m ↔ n < modulus ∧ n = m := by
  unfold checked
  split <;> simp [*]

theorem checked_of_lt {n : Nat} (h : n < modulus) : checked n = .ok n := checked_eq_ok.2 ⟨h, rfl⟩

@[simp] theorem ofCoordinate_natCast (n : Nat) : ofCoordinate n = n := by
  simp [ofCoordinate]

end Extent

end ImageViews
