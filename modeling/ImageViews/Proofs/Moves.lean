import ImageViews.Proofs.Outcome
import ImageViews.Sampler.Basic

/-!
# Moves of cursors

A move that does not fault leads to the place that plain integer arithmetic gives, so the place of
a cursor depends on its total displacement from the origin alone. A cursor can be moved on exactly
while its place fits; that every move of a walk succeeds is read off the positions that the walk
passes through.
-/
namespace ImageViews

variable {E : Fault → Prop} {Q : Int → Prop}

namespace Coordinate

theorem checked_yields {i : Int} (h : E .overflow ∨ Fits i) (hQ : Fits i → Q i) :
    (checked i).Yields E Q := by
  unfold checked
  split
  next hi => exact hQ hi
  next hi => exact h.resolve_right hi

theorem add_yields {a b : Int} (h : E .overflow ∨ Fits (a + b)) (hQ : Fits (a + b) → Q (a + b)) :
    (add a b).Yields E Q := checked_yields h hQ

theorem sub_yields {a b : Int} (h : E .overflow ∨ Fits (a - b)) (hQ : Fits (a - b) → Q (a - b)) :
    (sub a b).Yields E Q := checked_yields h hQ

theorem mul_yields {a b : Int} (h : E .overflow ∨ Fits (a * b)) (hQ : Fits (a * b) → Q (a * b)) :
    (mul a b).Yields E Q := checked_yields h hQ

theorem neg_yields {a : Int} (h : E .overflow ∨ Fits (-a)) (hQ : Fits (-a) → Q (-a)) :
    (neg a).Yields E Q := checked_yields h hQ

theorem add_eq_ok {a b c : Int} : add a b = .ok c ↔ Fits (a + b) ∧ a + b = c := checked_eq_ok

theorem sub_eq_ok {a b c : Int} : sub a b = .ok c ↔ Fits (a - b) ∧ a - b = c := checked_eq_ok

/-- Whatever fits an unsigned word keeps its value on the way to the signed one and back. -/
theorem ofExtent_of_le {n : Nat} (h : (n : Int) ≤ greatest) : ofExtent n = n :=
  ofExtent_of_lt (by unfold greatest at h; omega)

theorem ofExtent_le (n : Nat) : ofExtent n ≤ n := by
  unfold ofExtent
  split <;> omega

theorem ofExtent_fits {n : Nat} (h : n < Extent.modulus) : Fits (ofExtent n) := by
  unfold Extent.modulus at h
  unfold ofExtent Fits least greatest
  split <;> omega

/-- Extents between two that keep their order as signed words keep their distances as well. -/
theorem ofExtent_between {low n high : Nat} (hlow : low ≤ n) (hhigh : n ≤ high)
    (hword : high < Extent.modulus) (h : ofExtent low ≤ ofExtent high) :
    ofExtent n = ofExtent low + (n - low : Nat) ∧ ofExtent n ≤ ofExtent high := by
  unfold Extent.modulus at hword
  unfold ofExtent at h ⊢
  split at h <;> split at h <;> split <;> omega

/-- An extent whose signed word is not negative is no more than the greatest coordinate. -/
theorem le_greatest_of_ofExtent {n : Nat} (hword : n < Extent.modulus) (h : 0 ≤ ofExtent n) :
    (n : Int) ≤ greatest := by
  unfold Extent.modulus at hword
  unfold ofExtent at h
  unfold greatest
  split at h <;> omega

/-- An extent keeps its value or loses the number of all words. -/
theorem ofExtent_cases (n : Nat) : ofExtent n = n ∨ ofExtent n = n - (Extent.modulus : Int) := by
  unfold ofExtent
  split
  · exact .inl rfl
  · exact .inr rfl

/-- Taking two extents off one by one or at once gives results that differ by multiples of the
number of all words, so they are equal if both fit. -/
theorem sub_ofExtent_add {i : Int} {m n : Nat} (one_by_one : Fits (i - ofExtent m - ofExtent n))
    (at_once : Fits (i - ofExtent (m + n))) :
    i - ofExtent m - ofExtent n = i - ofExtent (m + n) := by
  have first := ofExtent_cases m
  have second := ofExtent_cases n
  have sum := ofExtent_cases (m + n)
  unfold Fits least greatest at one_by_one at_once
  unfold Extent.modulus at first second sum
  omega

end Coordinate

namespace Extent

theorem ofCoordinate_lt {i : Int} (h : Coordinate.Fits i) : ofCoordinate i < modulus := by
  unfold Coordinate.Fits Coordinate.least Coordinate.greatest at h
  unfold ofCoordinate modulus
  split <;> omega

theorem checked_yields {n : Nat} {Q : Nat → Prop} (h : E .overflow ∨ n < modulus)
    (hQ : n < modulus → Q n) : (checked n).Yields E Q := by
  unfold checked
  split
  next hn => exact hQ hn
  next hn => exact h.resolve_right hn

theorem add_yields {a b : Nat} {Q : Nat → Prop} (h : E .overflow ∨ a + b < modulus)
    (hQ : a + b < modulus → Q (a + b)) : (add a b).Yields E Q := checked_yields h hQ

theorem add_eq_ok {a b c : Nat} : add a b = .ok c ↔ a + b < modulus ∧ a + b = c := checked_eq_ok

theorem mul_yields {a b : Nat} {Q : Nat → Prop} (h : E .overflow ∨ a * b < modulus)
    (hQ : a * b < modulus → Q (a * b)) : (mul a b).Yields E Q := checked_yields h hQ

theorem sub_yields {a b : Nat} {Q : Nat → Prop} (h : E .overflow ∨ b ≤ a)
    (hQ : b ≤ a → Q (a - b)) : (sub a b).Yields E Q := by
  unfold sub
  split
  next hn => exact hQ hn
  next hn => exact h.resolve_right hn

theorem ofCoordinate_of_nonneg {i : Int} (h : 0 ≤ i) : ofCoordinate i = i.toNat := if_pos h

/-- A word that is taken for a coordinate and back. -/
theorem ofCoordinate_ofExtent {n : Nat} (h : n < modulus) :
    ofCoordinate (Coordinate.ofExtent n) = n := by
  unfold modulus at h
  unfold Coordinate.ofExtent ofCoordinate
  split <;> split <;> omega

end Extent

namespace Addressing

/-- The place at a displacement, fitting or not. -/
def moved : (a : Addressing) → a.Place → (dx dy dp : Int) → a.Place
  | strides col row plane, (offset : Int), dx, dy, dp =>
    offset + (dx * col + dy * row + dp * plane)
  | coordinates, (place : Position), dx, dy, dp =>
    { x := place.x + dx, y := place.y + dy, p := place.p + dp }

/-- The places that a cursor can keep. -/
def Fits : (a : Addressing) → a.Place → Prop
  | strides .., (offset : Int) => Coordinate.Fits offset
  | coordinates, (place : Position) =>
    Coordinate.Fits place.x ∧ Coordinate.Fits place.y ∧ Coordinate.Fits place.p

variable {a : Addressing} {place : a.Place}

@[simp] theorem moved_zero (a : Addressing) (place : a.Place) : a.moved place 0 0 0 = place := by
  cases a <;> simp [moved]

theorem moved_moved (dx dy dp ex ey ep : Int) :
    a.moved (a.moved place dx dy dp) ex ey ep =
      a.moved place (dx + ex) (dy + ey) (dp + ep) := by
  cases a with
  | strides col row plane =>
    change (_ : Int) = _
    simp only [moved, Int.add_mul]
    omega
  | coordinates => simp [moved, Int.add_assoc]

theorem nextCol_yields (place : a.Place) (h : E .overflow ∨ a.Fits (a.moved place 1 0 0)) :
    (a.nextCol place).Yields E (· = a.moved place 1 0 0) := by
  cases a with
  | strides col row plane =>
    refine Coordinate.add_yields ?_ fun _ => ?_
    · simpa [moved, Fits] using h
    · simp [moved]
  | coordinates =>
    refine Check.Yields.bind (Coordinate.add_yields (h.imp_right (·.1)) ?_)
    intro _
    exact Check.Yields.ok (by simp [moved])

theorem nextRow_yields (place : a.Place) (h : E .overflow ∨ a.Fits (a.moved place 0 1 0)) :
    (a.nextRow place).Yields E (· = a.moved place 0 1 0) := by
  cases a with
  | strides col row plane =>
    refine Coordinate.add_yields ?_ fun _ => ?_
    · simpa [moved, Fits] using h
    · simp [moved]
  | coordinates =>
    refine Check.Yields.bind (Coordinate.add_yields (h.imp_right (·.2.1)) ?_)
    intro _
    exact Check.Yields.ok (by simp [moved])

theorem nextPlane_yields (place : a.Place) (h : E .overflow ∨ a.Fits (a.moved place 0 0 1)) :
    (a.nextPlane place).Yields E (· = a.moved place 0 0 1) := by
  cases a with
  | strides col row plane =>
    refine Coordinate.add_yields ?_ fun _ => ?_
    · simpa [moved, Fits] using h
    · simp [moved]
  | coordinates =>
    refine Check.Yields.bind (Coordinate.add_yields (h.imp_right (·.2.2)) ?_)
    intro _
    exact Check.Yields.ok (by simp [moved])

/-- An advance that overflows nowhere reaches the displaced place. -/
theorem advance_yields (place : a.Place) (dx dy dp : Int) :
    (a.advance place dx dy dp).Yields (· = .overflow) fun q =>
      q = a.moved place dx dy dp ∧ a.Fits q := by
  cases a with
  | strides col row plane =>
    refine Check.Yields.bind (Coordinate.mul_yields (.inl rfl) ?_)
    intro _
    refine Check.Yields.bind (Coordinate.mul_yields (.inl rfl) ?_)
    intro _
    refine Check.Yields.bind (Coordinate.add_yields (.inl rfl) ?_)
    intro _
    refine Check.Yields.bind (Coordinate.mul_yields (.inl rfl) ?_)
    intro _
    refine Check.Yields.bind (Coordinate.add_yields (.inl rfl) ?_)
    intro _
    exact Coordinate.add_yields (.inl rfl) fun fits => ⟨rfl, fits⟩
  | coordinates =>
    refine Check.Yields.bind (Coordinate.add_yields (.inl rfl) ?_)
    intro x
    refine Check.Yields.bind (Coordinate.add_yields (.inl rfl) ?_)
    intro y
    refine Check.Yields.bind (Coordinate.add_yields (.inl rfl) ?_)
    intro p
    exact Check.Yields.ok ⟨rfl, x, y, p⟩

end Addressing

namespace Sampler

variable {σ α : Type} (s : Sampler σ α)

/-- The place is that of the pixel `(x, y)` in plane `p`. -/
def Tracks (place : s.addressing.Place) (x y p : Int) : Prop :=
  ∃ origin, s.origin = .ok origin ∧ place = s.addressing.moved origin x y p

/-- A cursor can be placed at the pixel `(x, y)` in plane `p`, or the fault is tolerated. -/
def Admits (E : Fault → Prop) (x y p : Int) : Prop := (s.place x y p).Tolerable E

variable {s} {x y p : Int} {place : s.addressing.Place}

theorem tracks_of_place (h : s.place x y p = .ok place) : s.Tracks place x y p := by
  unfold Sampler.place at h
  cases ho : s.origin with
  | error fault => simp [ho, bind, Except.bind] at h
  | ok origin =>
    refine ⟨origin, ho, ?_⟩
    have reached := s.addressing.advance_yields origin x y p
    exact (reached.value (by simpa [ho, bind, Except.bind] using h)).1

theorem place_yields (h : s.Admits E x y p) : (s.place x y p).Yields E (s.Tracks · x y p) :=
  .of_tolerable h fun _ => tracks_of_place

theorem Tracks.moved (h : s.Tracks place x y p) (dx dy dp : Int) :
    s.Tracks (s.addressing.moved place dx dy dp) (x + dx) (y + dy) (p + dp) := by
  obtain ⟨origin, ho, rfl⟩ := h
  exact ⟨origin, ho, Addressing.moved_moved ..⟩

/-- The place of a pixel fits where a cursor can be placed at the pixel. -/
theorem Tracks.fits (h : s.Tracks place x y p) (admits : s.Admits E x y p) :
    E .overflow ∨ s.addressing.Fits place := by
  obtain ⟨origin, ho, rfl⟩ := h
  have reached := s.addressing.advance_yields origin x y p
  have direct : s.place x y p = s.addressing.advance origin x y p := by
    simp [Sampler.place, ho, bind, Except.bind]
  unfold Admits at admits
  rw [direct] at admits
  cases ha : s.addressing.advance origin x y p with
  | error fault =>
    obtain rfl : fault = .overflow := reached.tolerable _ ha
    exact .inl (admits _ ha)
  | ok q =>
    obtain ⟨rfl, fits⟩ := reached.value ha
    exact .inr fits

/-- Point access at `(x, y)` in the given plane, and every cursor at its place, give the value of
`pixel`, and keep the property `I` of the state. -/
structure Shows (s : Sampler σ α) (E : Fault → Prop) (I : σ → Prop) (pixel : Check α) (x y : Int)
    (plane : Nat) : Prop where
  get : pixel.Tolerable E → ∀ st, I st →
    Yields E (s.get x y plane) st fun a st' => I st' ∧ pixel = .ok a
  read : pixel.Tolerable E → ∀ place, s.Tracks place x y plane → ∀ st, I st →
    Yields E (s.read place) st fun a st' => I st' ∧ pixel = .ok a

end Sampler

end ImageViews
