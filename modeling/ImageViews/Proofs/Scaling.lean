import ImageViews.Proofs.Selected

/-!
# Handles over selected planes

The handle of a buffer and that of its selected planes have the same extent, and distances of which
the one are `step` times longer. What is painted into a selected plane through the first handle is
painted through the second one as well; the other planes leave the selected cells as they are.
-/
namespace ImageViews

variable {σ τ α β : Type} {K : Pace} {Alike : α → β → Prop} {n m : Nat}

/-- The second buffer has cells like the selected ones of the first. -/
abbrev Pace.Cells (K : Pace) (Alike : α → β → Prop) (cells : Vector α n) (cells' : Vector β m) :
    Prop :=
  K.sel.Chosen Alike cells.toArray cells'.toArray

theorem Pace.Cells.set {cells : Vector α n} {cells' : Vector β m} (h : K.Cells Alike cells cells')
    {c : Fin n} {c' : Fin m} (same : c.val = K.sel.nth c'.val) {a : α} {b : β}
    (alike : Alike a b) : K.Cells Alike (cells.set c a c.isLt) (cells'.set c' b c'.isLt) := by
  unfold Pace.Cells at h ⊢
  rw [Vector.toArray_set, Vector.toArray_set]
  exact Selection.Chosen.set h same alike

theorem Pace.Cells.set_other {cells : Vector α n} {cells' : Vector β m}
    (h : K.Cells Alike cells cells') {c : Fin n} (other : ∀ i, c.val ≠ K.sel.nth i) (a : α) :
    K.Cells Alike (cells.set c a c.isLt) cells' := by
  unfold Pace.Cells at h ⊢
  rw [Vector.toArray_set]
  exact Selection.Chosen.set_other h other a

/-- The states of two paintings, of which only the cells are related. -/
abbrev Pace.Painting (K : Pace) (Alike : α → β → Prop) :
    Vector α n × σ → Vector β m × τ → Prop :=
  Both (K.Cells Alike) fun _ _ => True

namespace Handle

variable {handle : Handle n} {handle' : Handle m} {x y : Nat}

/-- The second handle is laid over the selected cells of the first. Strides matter only where there
are pixels. -/
structure Scales (K : Pace) (handle : Handle n) (handle' : Handle m) : Prop where
  size_eq : n = K.sel.step * m
  size_le : K.sel.step = 1 ∨ (n : Int) ≤ Coordinate.greatest
  cols_eq : handle.cols = handle'.cols
  rows_eq : handle.rows = handle'.rows
  planes_eq : handle.planes = K.sel.step * handle'.planes
  start_eq : handle.start = K.sel.step * handle'.start
  strides_eq : K.sel.step = 1 ∨ 0 < handle.cols ∧ 0 < handle.rows →
    handle.colStride = K.sel.step * handle'.colStride ∧
      handle.rowStride = K.sel.step * handle'.rowStride

theorem scales_whole_self {T : Fault → Prop} (handle : Handle n) :
    handle.Scales (.whole T) handle where
  size_eq := (Pace.whole_mul _).symm
  size_le := .inl rfl
  cols_eq := rfl
  rows_eq := rfl
  planes_eq := (Pace.whole_mul _).symm
  start_eq := (Pace.whole_mul _).symm
  strides_eq _ := ⟨(Int.one_mul _).symm, (Int.one_mul _).symm⟩

theorem Scales.transpose (h : handle.Scales K handle') :
    handle.transpose.Scales K handle'.transpose where
  size_eq := h.size_eq
  size_le := h.size_le
  cols_eq := h.rows_eq
  rows_eq := h.cols_eq
  planes_eq := h.planes_eq
  start_eq := h.start_eq
  strides_eq area := (h.strides_eq (area.imp_right And.symm)).symm

/-- An offset inside the buffer is `step` times longer. -/
theorem Scales.offset (h : handle.Scales K handle')
    (area : K.sel.step = 1 ∨ 0 < handle.cols ∧ 0 < handle.rows) {p p' r : Nat}
    (hp : p = K.sel.step * p' + r) (hr : r < K.sel.step) :
    (handle.offset x y p).Carries K.Excused (handle'.offset x y p') fun o o' =>
      K.sel.step = 1 ∨ handle.start + o ≤ n → o = K.sel.step * o' + r := by
  obtain ⟨col, row⟩ := h.strides_eq area
  have positive := K.sel.step_pos
  have scale {d k k' : Int} (hk : k = K.sel.step * k') : d * k = K.sel.step * (d * k') + 0 := by
    rw [hk, Int.mul_left_comm, Int.add_zero]
  apply Check.Carries.bind (Selection.coordinate_carries K.room
    (scale (d := Coordinate.ofExtent x) col) (by omega) (by omega))
  rintro dx dx' ⟨hdx, hdx', -⟩
  apply Check.Carries.bind (Selection.coordinate_carries K.room
    (scale (d := Coordinate.ofExtent y) row) (by omega) (by omega))
  rintro dy dy' ⟨hdy, hdy', -⟩
  have along_cols : dx = K.sel.step * dx' + 0 := by rw [hdx, hdx', scale col]
  have along_rows : dy = K.sel.step * dy' := by rw [hdy, hdy', scale row, Int.add_zero]
  apply Check.Carries.bind
    (Addressing.stride_carries K.room along_cols along_rows (by omega) (by omega))
  rintro pixel pixel' ⟨least, along⟩
  rw [Int.add_zero] at along
  refine (Selection.distance_carries K.room h.size_le along least hp hr).mono ?_
  exact fun _ _ _ _ longer inside => longer (inside.imp_right (by omega))

theorem cell_eq_ok {p : Nat} {c : Fin n} :
    handle.cell x y p = .ok c ↔ ∃ o, handle.offset x y p = .ok o ∧ c.val = handle.start + o := by
  unfold cell
  rw [Check.bind_eq_ok]
  constructor
  · rintro ⟨o, ok, cell⟩
    refine ⟨o, ok, ?_⟩
    split at cell
    · rw [← Except.ok.inj cell]
    · cases cell
  · rintro ⟨o, ok, same⟩
    refine ⟨o, ok, ?_⟩
    rw [dif_pos (same ▸ c.isLt)]
    exact congrArg Except.ok (Fin.ext same.symm)

/-- A selected plane has its cell in both buffers. -/
theorem Scales.cell (h : handle.Scales K handle')
    (area : K.sel.step = 1 ∨ 0 < handle.cols ∧ 0 < handle.rows) (i : Nat) :
    (handle.cell x y (K.sel.nth i)).Carries K.Excused (handle'.cell x y i) fun c c' =>
      c.val = K.sel.nth c'.val := by
  have plane : K.sel.nth i = K.sel.step * i + K.sel.first := rfl
  apply Check.Carries.bind (h.offset area plane K.sel.first_lt)
  intro o o' along
  have cell (inside : K.sel.step = 1 ∨ handle.start + o ≤ n) :
      handle.start + o = K.sel.nth (handle'.start + o') ∧
        (handle.start + o < n ↔ handle'.start + o' < m) := by
    have same : handle.start + o = K.sel.nth (handle'.start + o') := by
      rw [along inside, h.start_eq, Selection.nth, Nat.mul_add]
      omega
    refine ⟨same, ?_⟩
    rw [same, h.size_eq]
    exact K.sel.nth_lt
  by_cases inside : handle.start + o < n
  · obtain ⟨same, bound⟩ := cell (.inr (Nat.le_of_lt inside))
    rw [dif_pos inside, dif_pos (bound.1 inside)]
    exact .ok same
  · rw [dif_neg inside]
    rcases K.room with one | tolerant
    · rw [dif_neg (mt (cell (.inl one)).2.2 inside)]
      exact .inr rfl
    · exact .inl (tolerant _)

/-- The cell of a plane that is not selected is none of the selected ones. -/
theorem Scales.cell_other (h : handle.Scales K handle')
    (area : K.sel.step = 1 ∨ 0 < handle.cols ∧ 0 < handle.rows) {p : Nat}
    (other : ∀ i, p ≠ K.sel.nth i) {c : Fin n} (ok : handle.cell x y p = .ok c) (j : Nat) :
    c.val ≠ K.sel.nth j := by
  intro equal
  obtain ⟨o, offset, cell⟩ := cell_eq_ok.1 ok
  have rest := Nat.mod_lt p K.sel.step_pos
  have carried := h.offset (x := x) (y := y) area (Nat.div_add_mod p K.sel.step).symm rest
  rw [offset] at carried
  obtain ⟨o', -, along⟩ := carried
  have inside := c.isLt
  have first : p % K.sel.step = K.sel.first := by
    have same := congrArg (· % K.sel.step) equal
    simp only [cell, along (.inr (by omega)), h.start_eq, Selection.nth] at same
    rwa [← Nat.add_assoc, ← Nat.mul_add, Nat.mul_add_mod, Nat.mul_add_mod, Nat.mod_eq_of_lt rest,
      Nat.mod_eq_of_lt K.sel.first_lt] at same
  apply other (p / K.sel.step)
  unfold Selection.nth
  rw [← first, Nat.div_add_mod]

/-- Handles that are cut from here at places on the same line. -/
theorem Scales.cut (h : handle.Scales K handle') {cols rows o o' : Nat}
    (cols_le : cols ≤ handle.cols) (rows_le : rows ≤ handle.rows)
    (along : K.sel.step = 1 ∨ handle.start + o ≤ n → o = K.sel.step * o') :
    Check.Carries K.Excused
      (if h : handle.start + o ≤ n then
        .ok { handle with start := handle.start + o, cols, rows, start_le := h }
        else .error .outOfBounds)
      (if h : handle'.start + o' ≤ m then
        .ok { handle' with start := handle'.start + o', cols, rows, start_le := h }
        else .error .outOfBounds) (Scales K · ·) := by
  have start (inside : K.sel.step = 1 ∨ handle.start + o ≤ n) :
      handle.start + o = K.sel.step * (handle'.start + o') ∧
        (handle.start + o ≤ n ↔ handle'.start + o' ≤ m) := by
    have same : handle.start + o = K.sel.step * (handle'.start + o') := by
      rw [along inside, h.start_eq, Nat.mul_add]
    refine ⟨same, ?_⟩
    rw [same, h.size_eq]
    exact Nat.mul_le_mul_left_iff K.sel.step_pos
  by_cases inside : handle.start + o ≤ n
  · obtain ⟨same, bound⟩ := start (.inr inside)
    rw [dif_pos inside, dif_pos (bound.1 inside)]
    refine .ok ⟨h.size_eq, h.size_le, rfl, rfl, h.planes_eq, same, fun area => ?_⟩
    refine h.strides_eq (area.imp_right fun positive => ?_)
    exact ⟨Nat.lt_of_lt_of_le positive.1 cols_le, Nat.lt_of_lt_of_le positive.2 rows_le⟩
  · rw [dif_neg inside]
    rcases K.room with one | tolerant
    · rw [dif_neg (mt (start (.inl one)).2.2 inside)]
      exact .inr rfl
    · exact .inl (tolerant _)

theorem Scales.window (h : handle.Scales K handle') (x y cols rows : Nat) :
    (handle.window x y cols rows).Carries K.Excused (handle'.window x y cols rows)
      (Scales K · ·) := by
  unfold Handle.window
  rw [← h.cols_eq, ← h.rows_eq]
  apply Check.Carries.bind ((Check.Carries.same _).mono fun _ _ ok _ same =>
    And.intro same (Extent.checked_eq_ok.1 ok).2.symm)
  rintro right _ ⟨rfl, hright⟩
  apply Check.Carries.bind (.require id (.inr id))
  rintro _ _ ⟨right_le, -⟩
  apply Check.Carries.bind ((Check.Carries.same _).mono fun _ _ ok _ same =>
    And.intro same (Extent.checked_eq_ok.1 ok).2.symm)
  rintro bottom _ ⟨rfl, hbottom⟩
  apply Check.Carries.bind (.require id (.inr id))
  rintro _ _ ⟨bottom_le, -⟩
  have cols_le : cols ≤ handle.cols := by omega
  have rows_le : rows ≤ handle.rows := by omega
  by_cases empty : cols = 0 ∨ rows = 0
  · rw [if_pos empty, if_pos empty]
    exact h.cut cols_le rows_le fun _ => rfl
  · rw [if_neg empty, if_neg empty]
    have plane : 0 = K.sel.step * 0 + 0 := rfl
    apply Check.Carries.bind (h.offset (.inr (by omega)) plane K.sel.step_pos)
    intro o o' along
    exact h.cut cols_le rows_le along

/-- The second handle is accepted where the first one is. -/
theorem Scales.accept (h : handle.Scales K handle') (box : Box) {planes planes' : Nat}
    (planes_eq : planes = K.sel.step * planes') {S : σ → τ → Prop} :
    Carries S (Failure.Excused K.Excused)
      (liftM (handle.accept box planes) : ExceptT Failure (StateM σ) Unit)
      (liftM (handle'.accept box planes') : ExceptT Failure (StateM τ) Unit)
      fun _ _ => handle.Takes box planes ∧ handle'.planes = planes' := by
  intro s t related
  cases tested : handle.accept box planes with
  | ok =>
    have takes := accept_eq_ok.1 tested
    have takes' : handle'.Takes box planes' := by
      refine ⟨h.cols_eq ▸ takes.1, h.rows_eq ▸ takes.2.1, ?_⟩
      apply Nat.eq_of_mul_eq_mul_left K.sel.step_pos
      rw [← h.planes_eq, ← planes_eq, takes.2.2]
    rw [accept_eq_ok.2 takes']
    exact ⟨(), t, rfl, ⟨takes, takes'.2.2⟩, related⟩
  | error cause =>
    rcases K.room with one | tolerant
    · have same : handle'.accept box planes' = handle.accept box planes := by
        have planes_eq' := h.planes_eq
        rw [one, Nat.one_mul] at planes_eq planes_eq'
        unfold Handle.accept
        rw [h.cols_eq, h.rows_eq, planes_eq, planes_eq']
      rw [same, tested]
      exact .inr ⟨t, rfl, related⟩
    · exact .inl tolerant

theorem scales_whole {cols rows planes : Nat} (hn : n = cols * rows * (K.sel.step * planes))
    (hm : m = cols * rows * planes) (size_le : K.sel.step = 1 ∨ (n : Int) ≤ Coordinate.greatest) :
    (whole n cols rows (K.sel.step * planes)).Carries K.Excused (whole m cols rows planes)
      fun handle handle' => handle.Scales K handle' ∧
        handle.Takes { width := cols, height := rows } (K.sel.step * planes) := by
  have positive := K.sel.step_pos
  have size_eq : n = K.sel.step * m := by rw [hn, hm, Nat.mul_left_comm]
  unfold Handle.whole
  apply Check.Carries.bind (Image.count_carries ..)
  rintro _ _ ⟨rfl, rfl⟩
  apply Check.Carries.bind (.require (fun _ => Nat.le_of_eq hm.symm)
    (.inr fun _ => Nat.le_of_eq hn.symm))
  rintro _ _ -
  apply Check.Carries.bind
    (Selection.extent_carries K.room (r := 0) (Nat.mul_left_comm ..) positive)
  rintro _ _ ⟨rfl, rfl, -⟩
  refine .ok ⟨⟨size_eq, size_le, rfl, rfl, rfl, rfl, fun area => ?_⟩, rfl, rfl, rfl⟩
  refine (Addressing.scaled_rows ?_).1
  refine area.elim .inl fun ⟨hcols, hrows⟩ => size_le.imp_right fun size_le => ?_
  simp only at hcols hrows
  have pixel := Nat.le_mul_of_pos_left (K.sel.step * planes) (Nat.mul_pos hcols hrows)
  have line := Nat.mul_le_mul_right (K.sel.step * planes) (Nat.le_mul_of_pos_right cols hrows)
  omega

end Handle

end ImageViews
