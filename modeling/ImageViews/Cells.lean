import ImageViews.Word

/-!
# Cells

Pixels, coefficients and indices are kept in arrays of cells. A cell is fetched by an index that
has to fall into the array, and an array is tabulated from a function of the index, which may
fault. No array takes more bytes than the greatest coordinate, so the cells of a new one are
reserved first.
-/
namespace ImageViews

structure Storage (α : Type) where
  blank : α
  bytes : Nat
  /-- Values are stored at multiples of so many bytes. -/
  align : Nat
  bytes_pos : 0 < bytes
  align_dvd : align ∣ bytes

def reserve (bytes n : Nat) : Check Unit :=
  Check.require ((bytes * n : Int) ≤ Coordinate.greatest) .capacity

variable {α : Type}

def fetchCell (cells : Array α) (i : Nat) : Check α :=
  if h : i < cells.size then .ok cells[i] else .error .outOfBounds

theorem fetchCell_of_lt {cells : Array α} {i : Nat} (hi : i < cells.size) :
    fetchCell cells i = .ok cells[i] := dif_pos hi

/-- Appends `f i`, `f (i + 1)` and so on, `n` cells in all. -/
def appendCells (f : Nat → Check α) : (n i : Nat) → Array α → Check (Array α)
  | 0, _, cells => .ok cells
  | n + 1, i, cells => do appendCells f n (i + 1) (cells.push (← f i))

theorem size_of_appendCells {f : Nat → Check α} {n i : Nat} {cells result : Array α}
    (h : appendCells f n i cells = .ok result) : result.size = cells.size + n := by
  induction n generalizing i cells with
  | zero =>
    obtain rfl := Except.ok.inj h
    rfl
  | succ n ih =>
    unfold appendCells at h
    cases hf : f i with
    | error fault => simp [hf, bind, Except.bind] at h
    | ok value =>
      have := ih (by simpa [hf, bind, Except.bind] using h)
      simpa [Nat.add_assoc, Nat.add_comm 1] using this

theorem appendCells_add (f : Nat → Check α) (m n i : Nat) (cells : Array α) :
    appendCells f (m + n) i cells = appendCells f m i cells >>= appendCells f n (i + m) := by
  induction m generalizing i cells with
  | zero =>
    rw [Nat.zero_add]
    rfl
  | succ m ih =>
    rw [Nat.add_right_comm, appendCells, appendCells]
    cases f i with
    | error fault => rfl
    | ok value =>
      have rest := ih (i + 1) (cells.push value)
      rwa [Nat.add_right_comm, Nat.add_assoc i] at rest

theorem appendCells_congr {f g : Nat → Check α} {n i k : Nat} {cells : Array α}
    (same : ∀ j, j < n → f (i + j) = g (k + j)) :
    appendCells f n i cells = appendCells g n k cells := by
  induction n generalizing i k cells with
  | zero => rfl
  | succ n ih =>
    have rest (value : α) :
        appendCells f n (i + 1) (cells.push value) =
          appendCells g n (k + 1) (cells.push value) := by
      apply ih
      intro j hj
      have next := same (j + 1) (by omega)
      rwa [Nat.add_comm j, ← Nat.add_assoc, ← Nat.add_assoc] at next
    have first : f i = g k := same 0 (by omega)
    simp only [appendCells, first, rest]

/-- Appends the cells of `push i`, those of `push (i + 1)` and so on, `n` blocks in all. -/
def appendBlocks (push : Nat → Array α → Check (Array α)) :
    (n i : Nat) → Array α → Check (Array α)
  | 0, _, cells => .ok cells
  | n + 1, i, cells => do appendBlocks push n (i + 1) (← push i cells)

/-- Blocks of `m` cells each make up a single sequence of cells. -/
theorem appendBlocks_eq {push : Nat → Array α → Check (Array α)} {f : Nat → Nat → Check α}
    {m : Nat} (block : ∀ i cells, push i cells = appendCells (f i) m 0 cells) (n i : Nat)
    (cells : Array α) :
    appendBlocks push n i cells =
      appendCells (fun j => f (j / m) (j % m)) (n * m) (i * m) cells := by
  induction n generalizing i cells with
  | zero =>
    rw [Nat.zero_mul]
    rfl
  | succ n ih =>
    -- The first block is cut off from the front, with its numbers shifted by the blocks before it.
    have first : push i cells = appendCells (fun j => f (j / m) (j % m)) m (i * m) cells := by
      rw [block]
      apply appendCells_congr
      intro j hj
      have quotient : (i * m + j) / m = i := by
        rw [Nat.mul_comm, Nat.mul_add_div (by omega), Nat.div_eq_of_lt hj, Nat.add_zero]
      have remainder : (i * m + j) % m = j := by
        rw [Nat.mul_comm, Nat.mul_add_mod, Nat.mod_eq_of_lt hj]
      rw [quotient, remainder, Nat.zero_add]
    rw [appendBlocks, first, Nat.succ_mul, Nat.add_comm (n * m), appendCells_add]
    simp only [ih, Nat.succ_mul]

/-- The cells `f 0`, `f 1`, and so on up to `f (n - 1)`. -/
def tabulate (f : Nat → Check α) (n : Nat) : Check (Vector α n) :=
  match h : appendCells f n 0 #[] with
  | .ok cells => .ok ⟨cells, by simpa using size_of_appendCells h⟩
  | .error fault => .error fault

/-- Passes over `skip` cells, then takes one cell out of every `step` of them. -/
def takeEvery (step : Nat) : (skip : Nat) → List α → List α
  | _, [] => []
  | 0, cell :: cells => cell :: takeEvery step (step - 1) cells
  | skip + 1, _ :: cells => takeEvery step skip cells

theorem getElem?_takeEvery {step : Nat} (hstep : 0 < step) (skip i : Nat) (cells : List α) :
    (takeEvery step skip cells)[i]? = cells[i * step + skip]? := by
  induction cells generalizing skip i with
  | nil => simp [takeEvery]
  | cons cell cells ih =>
    cases skip with
    | succ skip =>
      rw [takeEvery, ih, ← Nat.add_assoc, List.getElem?_cons_succ]
    | zero =>
      cases i with
      | zero => simp [takeEvery]
      | succ i =>
        have next : (i + 1) * step + 0 = i * step + (step - 1) + 1 := by
          rw [Nat.succ_mul]
          omega
        rw [takeEvery, List.getElem?_cons_succ, ih, next, List.getElem?_cons_succ]

end ImageViews
