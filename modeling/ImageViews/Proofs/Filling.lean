import ImageViews.Proofs.Scaling

/-!
# Filling handles in step

Handles are filled in step from cursors in step. Along the planes of a pixel the second cursor waits
until the first one is at a selected plane; what the first one paints in between misses the selected
cells, and must not matter to the states either. Where nothing can be read, nothing is painted, and
the cursors only walk along the rows.
-/
namespace ImageViews

variable {σ τ α β : Type} {K : Pace} {S : σ → τ → Prop} {Alike : α → β → Prop} {n m : Nat}

theorem Failure.Excused.of_tolerated {T : Fault → Prop} :
    ∀ cause, Failure.Tolerated T cause → Failure.Excused T cause
  | .error _ => False.elim
  | .fault _ => id

theorem Failure.Excused.all {T : Fault → Prop} (tolerant : Tolerant T) :
    ∀ cause, Failure.Excused T cause
  | .error _ => tolerant
  | .fault cause => tolerant cause

theorem Failure.Excused.strict : ∀ cause, ¬Failure.Excused Strict cause
  | .error _ => fun tolerant => tolerant .overflow
  | .fault _ => id

namespace Handle

variable {handle : Handle n} {handle' : Handle m} {x y : Nat}

/-- A selected plane is painted on both sides. -/
theorem Scales.set (h : handle.Scales K handle')
    (area : K.sel.step = 1 ∨ 0 < handle.cols ∧ 0 < handle.rows) (i : Nat) {a : α} {b : β}
    (alike : Alike a b) :
    Carries (Both (K.Cells Alike) S) (Failure.Excused K.Excused)
      (handle.set x y (K.sel.nth i) a : Paint σ α n Unit)
      (handle'.set x y i b : Paint τ β m Unit) fun _ _ => True := by
  apply Carries.bind (.check (h.cell area i))
  rintro c c' same ⟨cells, s⟩ ⟨cells', t⟩ ⟨chosen, related⟩
  exact ⟨(), _, rfl, trivial, Pace.Cells.set chosen same alike, related⟩

/-- A plane that is not selected is painted on the first side only. -/
theorem Scales.set_other (h : handle.Scales K handle')
    (area : K.sel.step = 1 ∨ 0 < handle.cols ∧ 0 < handle.rows) (tolerant : Tolerant K.Excused)
    {p : Nat} (other : ∀ i, p ≠ K.sel.nth i) (a : α) {cells : Vector α n} {cells' : Vector β m}
    (chosen : K.Cells Alike cells cells') (s : σ) :
    Yields (Failure.Tolerated K.Excused) (handle.set x y p a : Paint σ α n Unit) (cells, s)
      fun _ st => K.Cells Alike st.1 cells' := by
  apply Yields.bind
  apply Yields.check
  apply Check.Yields.of_tolerable fun fault _ => tolerant fault
  intro c ok
  exact Pace.Cells.set_other chosen (h.cell_other area other ok) a

/-- Painting a plane that is not selected leaves the selected cells as they are. -/
theorem Scales.paint_other (h : handle.Scales K handle')
    (area : K.sel.step = 1 ∨ 0 < handle.cols ∧ 0 < handle.rows) (tolerant : Tolerant K.Excused)
    {p : Nat} (other : ∀ i, p ≠ K.sel.nth i) (probe : Probe σ α) {st : Vector α n × σ}
    {cells' : Vector β m} (chosen : K.Cells Alike st.1 cells') :
    Yields (Failure.Excused K.Excused) (do handle.set x y p (← probe) : Paint σ α n Unit) st
      fun _ s => K.Cells Alike s.1 cells' := by
  apply Yields.weaken _ Failure.Excused.of_tolerated
  apply Yields.bind
  apply Yields.probe
  unfold Yields
  split
  · exact h.set_other area tolerant other _ chosen _
  · exact tolerant _

section Fill

variable {a a' : Addressing} {value : a.Place → Probe σ α} {value' : a'.Place → Probe τ β}

section Steps

variable (h : handle.Scales K handle') (scaled : Addressing.Scaled K.sel handle'.planes a a')
  (free : K.sel.step = 1 ∨ ∀ s t, S s t)
  (hvalue : ∀ place place', Addressing.Meets K.sel handle'.planes a a' place place' →
    Carries S K.Excused (value place) (value' place') Alike)
include h scaled free hvalue

/-- The planes of a pixel, from plane `j` of the one and plane `i` of the other on, where `i` is the
next one that is selected. -/
theorem fillPlanes_carries (area : K.sel.step = 1 ∨ 0 < handle.cols ∧ 0 < handle.rows)
    {k k' j i : Nat} (hk : j + k = handle.planes) (hk' : i + k' = handle'.planes)
    (le : j ≤ K.sel.nth i) (near : K.sel.nth i < j + K.sel.step) {place : a.Place}
    {place' : a'.Place} (apart : Addressing.Apart K.sel j i a a' place place') :
    Carries (Both (K.Cells Alike) S) (Failure.Excused K.Excused)
      (sweep a.nextPlane (fun p place _ => do handle.set x y p (← value place)) k j place () :
        Paint σ α n Unit)
      (sweep a'.nextPlane (fun p place _ => do handle'.set x y p (← value' place)) k' i place' () :
        Paint τ β m Unit) fun _ _ => True := by
  have first := K.sel.first_lt
  have planes_eq := h.planes_eq
  have next := K.sel.nth_succ i
  induction k generalizing k' j i place place' with
  | zero =>
    have done : ¬i < handle'.planes := by
      rw [← K.sel.nth_lt, ← planes_eq]
      omega
    obtain rfl : k' = 0 := by omega
    exact .pure trivial
  | succ k ih =>
    by_cases selected : j = K.sel.nth i
    · subst selected
      have inside : i < handle'.planes := by
        rw [← K.sel.nth_lt, ← planes_eq]
        omega
      obtain ⟨k', rfl⟩ := Nat.exists_eq_succ_of_ne_zero (show k' ≠ 0 by omega)
      apply Carries.bind (Q := fun _ _ => True)
      · apply Carries.bind ((hvalue place place' (apart.meets inside)).probe (K.Cells Alike))
        intro pixel pixel' alike
        exact h.set area i alike
      intro _ _ _
      apply Carries.bind (.check (Addressing.nextPlane_carries K.room scaled apart))
      intro place place' apart
      exact ih (by omega) (by omega) (by omega) (by omega) apart (K.sel.nth_succ _)
    · -- between two selected planes the first cursor moves on alone
      have several : K.sel.step ≠ 1 := by omega
      have tolerant := K.room.resolve_left several
      have other (l : Nat) : j ≠ K.sel.nth l := by
        rintro rfl
        have := K.sel.nth_apart (Nat.lt_of_le_of_ne le selected)
        omega
      apply Carries.skip (P := fun _ => True)
      · intro s t related
        apply (h.paint_other area tolerant other (value place) related.1).mono
        exact fun _ _ chosen => ⟨trivial, chosen, free.resolve_left several _ _⟩
      intro _ _
      apply Carries.skip (P := (Addressing.Apart K.sel (j + 1) i a a' · place'))
      · intro s t related
        apply Yields.weaken _ Failure.Excused.of_tolerated
        apply Yields.check
        apply (Addressing.nextPlane_yields_apart tolerant scaled apart).mono
        exact fun _ apart => ⟨apart, related⟩
      intro place apart
      exact ih (by omega) hk' (by omega) (by omega) apart next

/-- Cursors that start level fill the handles in step. -/
theorem fill_carries {start : a.Place} {start' : a'.Place}
    (level : Addressing.Level K.sel a a' start start') :
    Carries (Both (K.Cells Alike) S) (Failure.Excused K.Excused) (handle.fill a start value)
      (handle'.fill a' start' value') fun _ _ => True := by
  have first := K.sel.first_lt
  unfold Handle.fill Handle.fillRow
  rw [← h.rows_eq, ← h.cols_eq]
  refine Carries.sweep (fun y _ hy place place' _ _ level _ => ?_)
    (fun _ _ level => .check (Addressing.nextRow_carries K.room scaled level (by omega) (by omega)))
    level trivial
  refine Carries.sweep (fun x _ hx place place' _ _ level _ => ?_)
    (fun _ _ level => .check (Addressing.nextCol_carries K.room scaled level (by omega) (by omega)))
    level trivial
  have zero : K.sel.nth 0 = K.sel.first := by
    unfold Selection.nth
    omega
  exact fillPlanes_carries h scaled free hvalue (.inr (by omega)) (Nat.zero_add _) (Nat.zero_add _)
    (Nat.zero_le _) (by omega) (Addressing.Level.apart level)

end Steps

/-- A handle without pixels is filled by walking along its rows, if there are any. -/
theorem fill_vacant {E : Fault → Prop} (vacant : handle.cols = 0 ∨ handle.rows = 0)
    {start : a.Place}
    (fits : handle.cols = 0 → ∀ y, y < handle.rows →
      E .overflow ∨ a.Fits (a.moved start 0 (y + 1 : Nat) 0)) (cells : Vector α n) (s : σ) :
    Yields (Failure.Tolerated E) (handle.fill a start value) (cells, s) fun _ st =>
      st.1 = cells := by
  rcases vacant with none | none
  · have origin : handle.fill a start value =
        handle.fill a (a.moved start 0 (0 : Nat) 0) value := by
      simp
    rw [origin]
    refine sweep_yields (fun y => a.moved start 0 y 0)
      (P := fun _ _ (st : Vector α n × σ) => st.1 = cells)
      (fun y _ _ acc st kept => ?_) (fun y _ hy st Q hQ => ?_) rfl
    · unfold Handle.fillRow
      rw [none]
      exact Yields.pure kept
    · apply Yields.check
      apply (a.nextRow_yields _ _).mono
      · rintro _ rfl
        rw [Addressing.moved_moved]
        exact hQ
      · rw [Addressing.moved_moved]
        exact fits none y (by omega)
  · unfold Handle.fill
    rw [none]
    exact Yields.pure rfl

/-- Filling begins with a pixel, if there is one. -/
theorem fill_fails (area : 0 < handle.cols ∧ 0 < handle.rows) (planes : 0 < handle.planes)
    (dead : ∀ place st, Yields Lenient (value place) st fun _ _ => False) (start : a.Place)
    (s : Vector α n × σ) :
    Yields (Failure.Tolerated Lenient) (handle.fill a start value) s fun _ _ => False := by
  obtain ⟨cols, hcols⟩ := Nat.exists_eq_succ_of_ne_zero (Nat.ne_of_gt area.1)
  obtain ⟨rows, hrows⟩ := Nat.exists_eq_succ_of_ne_zero (Nat.ne_of_gt area.2)
  obtain ⟨planes, hplanes⟩ := Nat.exists_eq_succ_of_ne_zero (Nat.ne_of_gt planes)
  unfold Handle.fill Handle.fillRow Handle.fillPlanes
  rw [hcols, hrows, hplanes]
  apply Yields.bind
  apply Yields.bind
  apply Yields.bind
  apply Yields.bind
  apply Yields.probe
  exact (dead start s.2).mono fun _ _ => False.elim

/-- Where nothing can be read, both handles are walked or the first one fails. -/
theorem Scales.fill_dead (h : handle.Scales K handle') (tolerant : Tolerant K.Excused)
    (planes : 0 < handle.planes)
    (dead : ∀ place st, Yields Lenient (value place) st fun _ _ => False) (start : a.Place)
    {start' : a'.Place} (fits : handle'.cols = 0 → ∀ y, y < handle'.rows →
      a'.Fits (a'.moved start' 0 (y + 1 : Nat) 0)) :
    Carries (K.Painting Alike) (Failure.Excused K.Excused) (handle.fill a start value)
      (handle'.fill a' start' value') fun _ _ => True := by
  by_cases area : 0 < handle.cols ∧ 0 < handle.rows
  · apply Carries.of_fails (Failure.Excused.all tolerant)
    intro s _ _
    exact (fill_fails area planes dead start s).weaken fun _ _ => trivial
  have vacant : handle.cols = 0 ∨ handle.rows = 0 := by omega
  rintro ⟨cells, s⟩ ⟨cells', t⟩ ⟨chosen, -⟩
  have kept : Yields (Failure.Tolerated Lenient) (handle.fill a start value) (cells, s)
      fun _ st => st.1 = cells :=
    fill_vacant vacant (fun _ _ _ => .inl trivial) cells s
  have kept' : Yields (Failure.Tolerated Strict) (handle'.fill a' start' value') (cells', t)
      fun _ st => st.1 = cells' :=
    fill_vacant (h.cols_eq ▸ h.rows_eq ▸ vacant) (fun none y hy => .inr (fits none y hy)) cells' t
  obtain ⟨_, ⟨_, t'⟩, run', rfl⟩ := kept'.succeeds Failure.not_tolerated
  unfold Yields at kept
  rcases run : (handle.fill a start value).run.run (cells, s) with ⟨cause | _, cells₁, s'⟩ <;>
    rw [run] at kept
  · exact .inl (Failure.Excused.all tolerant cause)
  · obtain rfl : cells₁ = cells := kept
    exact ⟨(), _, run', trivial, chosen, trivial⟩

end Fill

end Handle

namespace Strided

variable {grid : Strided α} {grid' : Strided β} {handle : Handle n} {handle' : Handle m}

/-- A walk along the rows ends behind the last row at most. -/
theorem Walkable.fits (h : grid.Walkable) {x y : Int} (hx : 0 ≤ x ∧ x ≤ grid.cols) (hy : 0 ≤ y)
    {j : Nat} (hj : y + j ≤ grid.rows) :
    grid.addressing.Fits (grid.addressing.moved
      (x * grid.colStride + y * grid.rowStride : Int) 0 j 0) := by
  obtain ⟨-, -, fits⟩ := h x (y + j) hx (by omega)
  rw [Int.add_mul, ← Int.add_assoc] at fits
  simpa [addressing, Addressing.Fits, Addressing.moved] using fits

theorem Walkable.place (h : grid.Walkable) {x y : Int} (hx : 0 ≤ x ∧ x ≤ grid.cols)
    (hy : 0 ≤ y ∧ y ≤ grid.rows) :
    (Sampler.strided grid : Sampler σ α).place x y 0 =
      .ok (x * grid.colStride + y * grid.rowStride : Int) := by
  obtain ⟨col, row, sum⟩ := h x y hx hy
  change (grid.addressing.advance (0 : Int) x y 0) = _
  simp only [Addressing.advance, addressing, Coordinate.mul, Coordinate.add,
    Coordinate.checked_of_fits col, Coordinate.checked_of_fits row, Coordinate.checked_of_fits sum,
    Check.ok_bind, Int.mul_one, Int.add_zero, Int.zero_add,
    Coordinate.checked_of_fits (show Coordinate.Fits 0 by decide)]
  rfl

/-- Boxes of grids are painted in step. A box without pixels has to lie inside the bounds, as
cursors may not be able to reach it otherwise. -/
theorem Selected.paint (h : grid.Selected K Alike grid') (scales : handle.Scales K handle')
    {box : Box} (frame : K.sel.step = 1 ∨
      (box.IsEmpty → box.Within (.ofExtent grid'.cols grid'.rows))) :
    Carries (K.Painting Alike) (Failure.Excused K.Excused)
      ((Sampler.strided grid).paint handle box : Paint σ α n Unit)
      ((Sampler.strided grid').paint handle' box : Paint τ β m Unit) fun _ _ => True := by
  apply Carries.bind (scales.accept box h.planes_eq)
  rintro _ _ ⟨takes, planes'⟩
  rcases h.strides with scaled | ⟨several, ⟨none, planes⟩, walkable⟩
  · have cursors := h.cursors (S := fun (_ : σ) (_ : τ) => True) scaled
    apply Carries.bind (.check (cursors.place_level box.x box.y))
    intro start start' level
    change handle'.planes = grid'.planes at planes'
    rw [← planes'] at scaled
    refine Handle.fill_carries scales scaled (.inr fun _ _ => trivial)
      (fun place place' meets => ?_) level
    rw [planes'] at meets
    exact cursors.read place place' meets
  have tolerant := K.room.resolve_left several
  have dead := dead_of_empty (σ := σ) none
  have planes : 0 < handle.planes := takes.2.2.symm ▸ planes
  by_cases empty : box.IsEmpty
  · obtain ⟨⟨left, right⟩, top, bottom⟩ := frame.resolve_left several empty
    simp only [Box.ofExtent, Int.zero_add] at left right top bottom
    have hx : 0 ≤ box.x ∧ box.x ≤ grid'.cols := by omega
    rw [walkable.place hx (by omega)]
    apply Carries.bind (.check (.of_tolerant tolerant fun start _ => ⟨_, rfl, rfl⟩))
      (Q := fun _ b => b = (box.x * grid'.colStride + box.y * grid'.rowStride : Int))
    rintro start _ rfl
    refine scales.fill_dead tolerant planes dead start fun _ y hy => ?_
    have rows : handle'.rows = box.height := scales.rows_eq ▸ takes.2.1
    exact walkable.fits hx top (by omega)
  · have area : 0 < handle.cols ∧ 0 < handle.rows := by
      unfold Box.IsEmpty at empty
      have := takes.1
      have := takes.2.1
      omega
    apply Carries.of_fails (Failure.Excused.all tolerant)
    intro s _ _
    apply Yields.weaken (E := Failure.Tolerated Lenient) _ fun _ _ => trivial
    apply Yields.bind
    apply Yields.check
    apply Check.Yields.of_tolerable fun _ _ => trivial
    intro start _
    exact Handle.fill_fails area planes dead start s

end Strided

end ImageViews
