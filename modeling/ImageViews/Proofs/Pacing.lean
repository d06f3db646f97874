import ImageViews.Proofs.Filling

/-!
# New images in step

Two new images are made side by side, the second one of the selected planes of the first. It takes
at most as many bytes, so it can be stored where the first one can.
-/
namespace ImageViews

variable {α β : Type} {K : Pace} {Alike : α → β → Prop}

/-- The second storage takes no more room, and may be short of room only with an excuse. -/
structure Pace.Stores (K : Pace) (Alike : α → β → Prop) (storage : Storage α)
    (storage' : Storage β) : Prop where
  bytes_le : storage'.bytes ≤ storage.bytes
  blank : Alike storage.blank storage'.blank
  capacity : K.Excused .capacity

theorem Likeness.stores {A : Arithmetic} (L : Likeness A) (capacity : K.Excused .capacity)
    (p : A.Pixel) : K.Stores L.Alike (L.storage p) (A.storage p) :=
  ⟨L.bytes_le p, L.blank_alike p, capacity⟩

namespace Image

variable {storage : Storage α} {storage' : Storage β} {cols rows planes planes' : Nat}
  (stores : K.Stores Alike storage storage') (planes_eq : planes = K.sel.step * planes')
include stores planes_eq

theorem allocate_carries :
    (allocate storage.bytes cols rows planes).Carries K.Excused
      (allocate storage'.bytes cols rows planes') fun _ _ =>
        ((cols * rows * planes : Nat) : Int) ≤ Coordinate.greatest := by
  subst planes_eq
  apply Check.Carries.bind (count_carries ..)
  rintro _ _ ⟨rfl, rfl⟩
  have shorter := Nat.mul_le_mul stores.bytes_le
    (show cols * rows * planes' ≤ cols * rows * (K.sel.step * planes') by
      rw [Nat.mul_left_comm]
      exact Nat.le_mul_of_pos_left _ K.sel.step_pos)
  have cell := Nat.le_mul_of_pos_left (cols * rows * (K.sel.step * planes')) storage.bytes_pos
  apply (Check.Carries.require (fun bytes => ?_) (.inl stores.capacity)).mono
  · rintro _ _ - - ⟨bytes, -⟩
    rw [← Int.natCast_mul] at bytes
    omega
  · rw [← Int.natCast_mul] at bytes ⊢
    omega

omit stores in
/-- Images over cells that are alike. -/
theorem selected_of_cells {cells : Vector α (cols * rows * planes)}
    {cells' : Vector β (cols * rows * planes')} (chosen : K.Cells Alike cells cells')
    (size_le : ((cols * rows * planes : Nat) : Int) ≤ Coordinate.greatest) :
    (ofVector cells).Selected K Alike (ofVector cells') where
  cols_eq := rfl
  rows_eq := rfl
  planes_eq := planes_eq
  chosen := chosen
  size_le := .inr (by simpa [ofVector] using size_le)

/-- Blank cells are alike. -/
theorem replicate_cells :
    K.Cells Alike (Vector.replicate (cols * rows * planes) storage.blank)
      (Vector.replicate (cols * rows * planes') storage'.blank) := by
  have size_eq : cols * rows * planes = K.sel.step * (cols * rows * planes') := by
    rw [planes_eq, Nat.mul_left_comm]
  have cells : K.sel.Chosen Alike
      (Array.replicate (K.sel.step * (cols * rows * planes')) storage.blank)
      (Array.replicate (cols * rows * planes') storage'.blank) := .replicate stores.blank _
  rwa [← size_eq] at cells

theorem blank_carries :
    (blank storage cols rows planes).Carries K.Excused (blank storage' cols rows planes')
      fun image image' => image.Selected K Alike image' ∧ image'.planes = planes' := by
  apply Check.Carries.bind (allocate_carries stores planes_eq)
  intro _ _ size_le
  exact .ok ⟨selected_of_cells planes_eq (replicate_cells stores planes_eq) size_le, rfl⟩

theorem generate_carries {f : Nat → Nat → Nat → Check α} {f' : Nat → Nat → Nat → Check β}
    (hf : ∀ x y i, (f x y (K.sel.nth i)).Carries K.Excused (f' x y i) Alike) :
    (generate storage.bytes cols rows planes f).Carries K.Excused
      (generate storage'.bytes cols rows planes' f')
      fun image image' => image.Selected K Alike image' ∧ image'.planes = planes' := by
  apply Check.Carries.bind (allocate_carries stores planes_eq)
  intro _ _ size_le
  have size_eq : cols * rows * planes = K.sel.step * (cols * rows * planes') := by
    rw [planes_eq, Nat.mul_left_comm]
  rw [tabulatePixels_eq, tabulatePixels_eq]
  apply Check.Carries.bind (Selection.tabulate_carries K.room size_eq fun j _ => ?_)
  · intro cells cells' chosen
    exact .ok ⟨selected_of_cells planes_eq chosen size_le, rfl⟩
  have first := K.sel.first_lt
  have pixel : K.sel.nth j / planes = j / planes' := by
    unfold Selection.nth
    rw [planes_eq, ← Nat.div_div_eq_div_mul, Nat.mul_add_div K.sel.step_pos,
      Nat.div_eq_of_lt first, Nat.add_zero]
  have plane : K.sel.nth j % planes = K.sel.nth (j % planes') := by
    unfold Selection.nth
    rw [planes_eq, Nat.mod_mul, Nat.mul_add_mod, Nat.mod_eq_of_lt first,
      Nat.mul_add_div K.sel.step_pos, Nat.div_eq_of_lt first, Nat.add_zero, Nat.add_comm]
  rw [pixel, plane]
  exact hf _ _ _

/-- What is painted in step is rendered in step. -/
theorem render_carries
    {paint : Handle (cols * rows * planes) → Paint Log α (cols * rows * planes) Unit}
    {paint' : Handle (cols * rows * planes') → Paint Log β (cols * rows * planes') Unit}
    (hpaint : ∀ handle handle', handle.Scales K handle' → handle'.planes = planes' →
      Carries (K.Painting Alike) (Failure.Excused K.Excused) (paint handle) (paint' handle')
        fun _ _ => True) :
    Carries (fun _ _ => True) (Failure.Excused K.Excused) (render storage cols rows planes paint)
      (render storage' cols rows planes' paint')
      fun image image' => image.Selected K Alike image' ∧ image'.planes = planes' := by
  apply Carries.bind (.check (allocate_carries stores planes_eq))
  intro _ _ size_le
  have whole : (Handle.whole (cols * rows * planes) cols rows planes).Carries K.Excused
      (Handle.whole (cols * rows * planes') cols rows planes') fun handle handle' =>
        handle.Scales K handle' ∧ handle.Takes { width := cols, height := rows } planes := by
    have size_eq : cols * rows * planes = cols * rows * (K.sel.step * planes') := by rw [planes_eq]
    have scales := Handle.scales_whole (K := K) size_eq rfl (.inr size_le)
    rwa [← planes_eq] at scales
  apply Carries.bind (.check whole)
  rintro handle handle' ⟨scales, takes⟩
  have planes_eq' : handle'.planes = planes' := by
    apply Nat.eq_of_mul_eq_mul_left K.sel.step_pos
    rw [← scales.planes_eq, ← planes_eq]
    exact takes.2.2
  apply Carries.bind
    ((hpaint handle handle' scales planes_eq').onto (replicate_cells stores planes_eq))
  intro cells cells' chosen
  exact .pure ⟨selected_of_cells planes_eq chosen size_le, rfl⟩

end Image

end ImageViews
