import ImageViews.Proofs.Carrying
import ImageViews.Proofs.Rendering

/-!
# Every so many planes

One plane of every `step` is selected, so a buffer of selected cells is `step` times shorter. What a
cursor does in the longer buffer it does in the shorter one, with strides that are `step` times
shorter; words that hold the longer distances hold the shorter ones too. With a step of one the two
are the same.
-/
namespace ImageViews

/-- The planes `first`, `first + step`, `first + 2 * step` and so on. -/
structure Selection where
  step : Nat
  first : Nat
  first_lt : first < step

namespace Selection

/-- All planes. -/
def all : Selection := { step := 1, first := 0, first_lt := Nat.one_pos }

/-- A single plane of `planes`. -/
def one (planes plane : Nat) (h : plane < planes) : Selection :=
  { step := planes, first := plane, first_lt := h }

variable (sel : Selection)

/-- The plane, or the cell, that is selected as the `i`-th. -/
def nth (i : Nat) : Nat := sel.step * i + sel.first

theorem nth_of_one (h : sel.step = 1) (i : Nat) : sel.nth i = i := by
  have := sel.first_lt
  unfold nth
  rw [h]
  omega

theorem step_pos : 0 < sel.step := Nat.zero_lt_of_lt sel.first_lt

theorem nth_lt {i n : Nat} : sel.nth i < sel.step * n ↔ i < n := by
  have := sel.first_lt
  unfold nth
  constructor
  · intro lt
    rcases Nat.lt_or_ge i n with inside | outside
    · exact inside
    · have := Nat.mul_le_mul_left sel.step outside
      omega
  · intro lt
    have := Nat.mul_le_mul_left sel.step (Nat.succ_le_of_lt lt)
    rw [Nat.mul_succ] at this
    omega

theorem nth_inj {i j : Nat} (h : sel.nth i = sel.nth j) : i = j :=
  Nat.eq_of_mul_eq_mul_left sel.step_pos (Nat.add_right_cancel h)

/-- Two selected planes are at least a step apart. -/
theorem nth_apart {i j : Nat} (h : sel.nth i < sel.nth j) : sel.nth i + sel.step ≤ sel.nth j := by
  unfold nth at h ⊢
  rcases Nat.lt_or_ge i j with lt | ge
  · have := Nat.mul_le_mul_left sel.step (Nat.succ_le_of_lt lt)
    rw [Nat.mul_succ] at this
    omega
  · have := Nat.mul_le_mul_left sel.step ge
    omega

theorem nth_succ (i : Nat) : sel.nth (i + 1) = sel.nth i + sel.step := by
  unfold nth
  rw [Nat.mul_succ]
  omega

/-- A word that holds a distance holds the one that is `step` times shorter. -/
theorem fits {i i' r : Int} (h : i = sel.step * i' + r) (low : -(sel.step : Int) < r)
    (high : r < sel.step) (hi : Coordinate.Fits i) : Coordinate.Fits i' := by
  have positive := sel.step_pos
  unfold Coordinate.Fits Coordinate.least Coordinate.greatest at hi ⊢
  by_cases one : sel.step = 1
  · rw [one] at h low high
    omega
  have scale {a b : Int} (le : a ≤ b) : sel.step * a ≤ sel.step * b :=
    Int.mul_le_mul_of_nonneg_left le (Int.natCast_nonneg _)
  constructor
  · rcases Int.lt_or_le i' (-0x8000000000000000) with below | above
    · have := scale (show i' ≤ -0x8000000000000001 by omega)
      omega
    · exact above
  · rcases Int.lt_or_le 0x7fffffffffffffff i' with above | below
    · have := scale (show 0x8000000000000000 ≤ i' by omega)
      omega
    · exact below

/-- With a step above one, faults of the longer side are excused. -/
def Room (T : Fault → Prop) : Prop := sel.step = 1 ∨ Tolerant T

variable {sel} {T : Fault → Prop}

theorem coordinate_carries (room : sel.Room T) {i i' r : Int} (h : i = sel.step * i' + r)
    (low : -(sel.step : Int) < r) (high : r < sel.step) :
    (Coordinate.checked i).Carries T (Coordinate.checked i') fun a b =>
      a = i ∧ b = i' ∧ Coordinate.Fits i := by
  by_cases hi : Coordinate.Fits i
  · rw [Coordinate.checked_of_fits hi, Coordinate.checked_of_fits (sel.fits h low high hi)]
    exact .ok ⟨rfl, rfl, hi⟩
  · unfold Coordinate.checked
    rw [if_neg hi]
    rcases room with one | tolerant
    · obtain rfl : i = i' := by
        rw [one] at h low high
        omega
      exact .inr (if_neg hi)
    · exact .inl (tolerant _)

theorem extent_carries (room : sel.Room T) {i i' r : Nat} (h : i = sel.step * i' + r)
    (high : r < sel.step) :
    (Extent.checked i).Carries T (Extent.checked i') fun a b =>
      a = i ∧ b = i' ∧ i < Extent.modulus := by
  have positive := sel.step_pos
  by_cases hi : i < Extent.modulus
  · have shorter : i' ≤ sel.step * i' := Nat.le_mul_of_pos_left _ positive
    rw [Extent.checked_of_lt hi, Extent.checked_of_lt (by omega)]
    exact .ok ⟨rfl, rfl, hi⟩
  · unfold Extent.checked
    rw [if_neg hi]
    rcases room with one | tolerant
    · obtain rfl : i = i' := by
        rw [one] at h high
        omega
      exact .inr (if_neg hi)
    · exact .inl (tolerant _)

/-- The distance of a plane of a pixel, given as words. Where it belongs to a buffer of `n` cells it
is `step` times longer. -/
theorem distance_carries (room : sel.Room T) {n : Nat}
    (size_le : sel.step = 1 ∨ (n : Int) ≤ Coordinate.greatest) {pixel pixel' : Int}
    (along : pixel = sel.step * pixel') (least : Coordinate.least ≤ pixel) {p p' r : Nat}
    (hp : p = sel.step * p' + r) (hr : r < sel.step) :
    (Extent.add (Extent.ofCoordinate pixel) p).Carries T
      (Extent.add (Extent.ofCoordinate pixel') p') fun o o' =>
        sel.step = 1 ∨ o ≤ n → o = sel.step * o' + r := by
  have positive := sel.step_pos
  by_cases one : sel.step = 1
  · obtain rfl : pixel = pixel' := by
      rw [one] at along
      omega
    obtain ⟨rfl, rfl⟩ : r = 0 ∧ p = p' := by
      rw [one] at hp hr
      omega
    apply (Check.Carries.same _).mono
    rintro o _ - - rfl _
    rw [one]
    omega
  apply Check.Carries.of_tolerant (room.resolve_left one)
  intro o ok
  obtain ⟨word, rfl⟩ := Extent.checked_eq_ok.1 ok
  unfold Extent.modulus at word
  by_cases negative : pixel < 0
  · -- the offset wraps around to more than any buffer holds
    have size := size_le.resolve_left one
    have below : pixel' + p' < 0 := by
      rcases Int.lt_or_le (pixel' + p') 0 with below | above
      · exact below
      · have forward := Int.mul_nonneg (Int.natCast_nonneg sel.step) above
        rw [Int.mul_add, ← along] at forward
        unfold Coordinate.least at least
        unfold Extent.ofCoordinate at word
        rw [if_neg (by omega)] at word
        omega
    have least' := (sel.fits (r := 0) (by rw [along, Int.add_zero]) (by omega) (by omega)
      ⟨least, by unfold Coordinate.greatest; omega⟩).1
    unfold Coordinate.least at least least'
    unfold Coordinate.greatest at size
    refine ⟨_, Extent.checked_of_lt ?_, fun inside => ?_⟩
    · unfold Extent.ofCoordinate Extent.modulus
      rw [if_neg (by omega)]
      omega
    · have inside := inside.resolve_left one
      unfold Extent.ofCoordinate at inside
      rw [if_neg (by omega)] at inside
      omega
  · have nonneg : 0 ≤ pixel' := by
      rcases Int.lt_or_le pixel' 0 with below | above
      · have := Int.mul_le_mul_of_nonneg_left (show pixel' ≤ -1 by omega)
          (Int.natCast_nonneg sel.step)
        omega
      · exact above
    obtain ⟨i, rfl⟩ := Int.eq_ofNat_of_zero_le nonneg
    obtain rfl : pixel = (sel.step * i : Nat) := by rw [along, Int.natCast_mul]
    have shorter := Nat.le_mul_of_pos_left (i + p') positive
    rw [Nat.mul_add] at shorter
    refine ⟨i + p', ?_, fun _ => ?_⟩
    · rw [Extent.ofCoordinate_natCast] at word
      change Extent.checked (Extent.ofCoordinate (i : Int) + p') = _
      rw [Extent.ofCoordinate_natCast, Extent.checked_of_lt (by unfold Extent.modulus; omega)]
    · rw [Extent.ofCoordinate_natCast, Nat.mul_add]
      omega

theorem fetchCell_eq_ok {α : Type} {xs : Array α} {i : Nat} {a : α} :
    fetchCell xs i = .ok a ↔ xs[i]? = some a := by
  unfold fetchCell
  split <;> simp_all

section Chosen

variable {α β : Type} {Alike : α → β → Prop} {xs : Array α} {ys : Array β}

/-- The cells `ys` are like the selected ones of `xs`. -/
structure Chosen (sel : Selection) (Alike : α → β → Prop) (xs : Array α) (ys : Array β) :
    Prop where
  size_eq : xs.size = sel.step * ys.size
  alike : ∀ {i a b}, xs[sel.nth i]? = some a → ys[i]? = some b → Alike a b

theorem Chosen.fetch (h : sel.Chosen Alike xs ys) (i : Nat) :
    (fetchCell xs (sel.nth i)).Carries T (fetchCell ys i) Alike := by
  have bounds : sel.nth i < xs.size ↔ i < ys.size := by
    rw [h.size_eq]
    exact sel.nth_lt
  unfold fetchCell
  by_cases inside : i < ys.size
  · rw [dif_pos (bounds.2 inside), dif_pos inside]
    exact .ok (h.alike (Array.getElem?_eq_getElem (bounds.2 inside))
      (Array.getElem?_eq_getElem inside))
  · rw [dif_neg (mt bounds.1 inside), dif_neg inside]
    exact .inr rfl

/-- The cells at two offsets, of which the second is `step` times shorter. -/
theorem Chosen.read (h : sel.Chosen Alike xs ys) (room : sel.Room T)
    (size_le : sel.step = 1 ∨ (xs.size : Int) ≤ Coordinate.greatest) {o o' : Int}
    (along : o = sel.step * o' + sel.first) (least : Coordinate.least ≤ o) :
    (fetchCell xs (Extent.ofCoordinate o)).Carries T (fetchCell ys (Extent.ofCoordinate o'))
      Alike := by
  have first := sel.first_lt
  by_cases one : sel.step = 1
  · obtain rfl : o = o' := by
      rw [one] at along
      omega
    have same := h.fetch (T := T) (Extent.ofCoordinate o)
    rwa [sel.nth_of_one one] at same
  have tolerant := room.resolve_left one
  have size_le := size_le.resolve_left one
  by_cases negative : o < 0
  · have outside : ¬Extent.ofCoordinate o < xs.size := by
      unfold Coordinate.least at least
      unfold Coordinate.greatest at size_le
      unfold Extent.ofCoordinate
      rw [if_neg (by omega)]
      omega
    unfold fetchCell
    rw [dif_neg outside]
    exact .inl (tolerant _)
  · have nonneg : 0 ≤ o' := by
      rcases Int.lt_or_le o' 0 with below | above
      · have := Int.mul_le_mul_of_nonneg_left (show o' ≤ -1 by omega) (Int.natCast_nonneg sel.step)
        omega
      · exact above
    have same : Extent.ofCoordinate o = sel.nth (Extent.ofCoordinate o') := by
      rw [Extent.ofCoordinate_of_nonneg (by omega), Extent.ofCoordinate_of_nonneg nonneg]
      obtain ⟨i, rfl⟩ := Int.eq_ofNat_of_zero_le nonneg
      unfold nth
      rw [along, Int.toNat_natCast]
      omega
    rw [same]
    exact h.fetch _

theorem Chosen.replicate {a : α} {b : β} (h : Alike a b) (n : Nat) :
    sel.Chosen Alike (Array.replicate (sel.step * n) a) (Array.replicate n b) where
  size_eq := by simp
  alike ha hb := by
    simp only [Array.getElem?_replicate, Option.ite_none_right_eq_some, Option.some.injEq] at ha hb
    rw [← ha.2, ← hb.2]
    exact h

/-- A selected cell is replaced on both sides. -/
theorem Chosen.set (h : sel.Chosen Alike xs ys) {c c' : Nat} {hc : c < xs.size} {hc' : c' < ys.size}
    (same : c = sel.nth c') {a : α} {b : β} (related : Alike a b) :
    sel.Chosen Alike (xs.set c a hc) (ys.set c' b hc') where
  size_eq := by simpa using h.size_eq
  alike {j a' b'} ha hb := by
    subst same
    by_cases same : c' = j
    · subst same
      simp only [Array.getElem?_set_self, Option.some.injEq] at ha hb
      rw [← ha, ← hb]
      exact related
    · rw [Array.getElem?_set_ne _ fun equal => same (sel.nth_inj equal)] at ha
      rw [Array.getElem?_set_ne _ same] at hb
      exact h.alike ha hb

/-- A cell that is not selected is replaced on the longer side. -/
theorem Chosen.set_other (h : sel.Chosen Alike xs ys) {c : Nat} {hc : c < xs.size}
    (other : ∀ i, c ≠ sel.nth i) (a : α) : sel.Chosen Alike (xs.set c a hc) ys where
  size_eq := by simpa using h.size_eq
  alike {j a' b'} ha hb := by
    rw [Array.getElem?_set_ne _ (other j)] at ha
    exact h.alike ha hb

theorem appendCells_fault {f : Nat → Check α} {f' : Nat → Check β} {n i : Nat} {xs : Array α}
    {ys : Array β} (hf : ∀ j, i ≤ j → j < i + n → (f j).Carries T (f' j) Alike) {fault : Fault}
    (h : appendCells f n i xs = .error fault) :
    T fault ∨ appendCells f' n i ys = .error fault := by
  induction n generalizing i xs ys with
  | zero => cases h
  | succ n ih =>
    have first := hf i (Nat.le_refl _) (by omega)
    unfold appendCells at h ⊢
    cases value : f i with
    | ok a =>
      rw [value] at first h
      obtain ⟨b, value', -⟩ := first
      rw [value']
      exact ih (fun j hj hj' => hf j (by omega) (by omega)) h
    | error cause =>
      rw [value] at first h
      obtain rfl : cause = fault := Except.error.inj h
      apply first.imp_right
      intro value'
      rw [value']
      rfl

theorem tabulate_eq_error {f : Nat → Check α} {n : Nat} {fault : Fault} :
    tabulate f n = .error fault ↔ appendCells f n 0 #[] = .error fault := by
  unfold tabulate
  split <;> simp_all

/-- Tables of which one has the selected values of the other. -/
theorem tabulate_carries (room : sel.Room T) {f : Nat → Check α} {f' : Nat → Check β} {n n' : Nat}
    (hn : n = sel.step * n')
    (hf : ∀ j, j < n' → (f (sel.nth j)).Carries T (f' j) Alike) :
    (tabulate f n).Carries T (tabulate f' n') fun xs ys =>
      sel.Chosen Alike xs.toArray ys.toArray := by
  cases table : tabulate f n with
  | ok xs =>
    have shown := (tabulate_yields (E := Lenient) fun _ _ _ _ => trivial).value table
    have value {j : Nat} (hj : j < n') : ∃ a b, fetchCell xs.toArray (sel.nth j) = .ok a ∧
        f' j = .ok b ∧ Alike a b := by
      have inside : sel.nth j < n := hn ▸ sel.nth_lt.2 hj
      have carried := hf j hj
      rw [← shown _ inside, fetchCell_toArray inside] at carried
      obtain ⟨b, ok, related⟩ := carried
      exact ⟨_, b, fetchCell_toArray inside, ok, related⟩
    have made := tabulate_yields (E := Strict) (f := f') (n := n') fun j hj fault raised => by
      obtain ⟨_, b, -, ok, -⟩ := value hj
      rw [ok] at raised
      cases raised
    obtain ⟨ys, table'⟩ := made.tolerable.succeeds
    have shown' := made.value table'
    refine ⟨ys, table', by simp [hn], fun {j a b} ha hb => ?_⟩
    have hj : j < n' := by
      obtain ⟨lt, -⟩ := Array.getElem?_eq_some_iff.1 hb
      simpa using lt
    obtain ⟨a', b', ha', hb', related⟩ := value hj
    rw [fetchCell_eq_ok.2 ha] at ha'
    rw [← shown' j hj, fetchCell_eq_ok.2 hb] at hb'
    cases ha'
    cases hb'
    exact related
  | error fault =>
    rcases room with one | tolerant
    · have same : n = n' := by rw [hn, one, Nat.one_mul]
      subst same
      have same (j : Nat) (_ : 0 ≤ j) (hj : j < 0 + n) : (f j).Carries T (f' j) Alike := by
        have pixel := hf j (by omega)
        rwa [sel.nth_of_one one] at pixel
      exact (appendCells_fault same (tabulate_eq_error.1 table)).imp_right tabulate_eq_error.2
    · exact .inl (tolerant fault)

end Chosen

end Selection

end ImageViews
