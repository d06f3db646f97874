import ImageViews.Proofs.Overlaps

/-!
# Boxes as sets of pixels

A box stands for the pixels between its corners, and the operations on boxes do to the corners what
they are meant to do to these pixels. They do so as long as the box that they lead to is
representable: its corners are coordinates, and its extents are no more than the greatest one.
Margins are extents and turn into coordinates with their bits kept, so a margin beyond that would
move a corner inwards.
-/
namespace ImageViews

namespace Check

variable {α : Type}

/-- Two computations lead to the same value as far as they return, and both do so under `P`. -/
structure Coincide (P : Prop) (check check' : Check α) : Prop where
  agree : ∀ a a', check = .ok a → check' = .ok a' → a = a'
  return_of : P → ∃ a, check = .ok a ∧ check' = .ok a

end Check

namespace Box

variable {a b c : Box} {x y dx dy dx' dy' : Int}
  {left top right bottom left' top' right' bottom' : Nat}

/-- The extents of the box fit signed words, and so do its corners. -/
structure Representable (b : Box) : Prop extends b.Signed where
  left_fits : Coordinate.Fits b.x
  top_fits : Coordinate.Fits b.y

instance (b : Box) : Decidable b.Representable :=
  decidable_of_iff (b.Signed ∧ Coordinate.Fits b.x ∧ Coordinate.Fits b.y)
    ⟨fun ⟨signed, left_fits, top_fits⟩ => { toSigned := signed, left_fits, top_fits },
    fun h => ⟨h.toSigned, h.left_fits, h.top_fits⟩⟩

/-- The box moved by `(dx, dy)`, representable or not. -/
def moved (b : Box) (dx dy : Int) : Box := { b with x := b.x + dx, y := b.y + dy }

/-- The box with margins on its four sides, representable or not. -/
def grown (b : Box) (left top right bottom : Nat) : Box where
  x := b.x - left
  y := b.y - top
  width := b.width + left + right
  height := b.height + top + bottom

section Pixels

theorem moved_has : (a.moved dx dy).Has x y ↔ a.Has (x - dx) (y - dy) := by
  simp only [Has, moved]
  omega

/-- An interval with margins has the numbers that are no farther than the margins from one of its
own. -/
theorem exists_within_margins {start i : Int} {len before after : Nat} (pos : 0 < len) :
    (start - before ≤ i ∧ i < start - before + (len + before + after : Nat)) ↔
      ∃ j, (start ≤ j ∧ j < start + len) ∧ -before ≤ i - j ∧ i - j ≤ after := by
  constructor
  · intro within
    -- the first number of the interval that the margin behind it does not leave out
    exact ⟨max start (i - after), by omega, by omega⟩
  · rintro ⟨j, inside, near⟩
    omega

theorem grown_has (nonempty : ¬a.IsEmpty) : (a.grown left top right bottom).Has x y ↔
    ∃ x' y', a.Has x' y' ∧ (-left ≤ x - x' ∧ x - x' ≤ right) ∧
      -top ≤ y - y' ∧ y - y' ≤ bottom := by
  have columns : 0 < a.width := Nat.pos_of_ne_zero fun none => nonempty (.inl none)
  have rows : 0 < a.height := Nat.pos_of_ne_zero fun none => nonempty (.inr none)
  simp only [Has, grown]
  rw [exists_within_margins columns, exists_within_margins rows]
  constructor
  · rintro ⟨⟨x', inside, near⟩, y', inside', near'⟩
    exact ⟨x', y', ⟨inside, inside'⟩, near, near'⟩
  · rintro ⟨x', y', ⟨inside, inside'⟩, near, near'⟩
    exact ⟨⟨x', inside, near⟩, y', inside', near'⟩

end Pixels

section Results

theorem translate_eq_ok : a.translate dx dy = .ok c ↔
    (Coordinate.Fits (a.x + dx) ∧ Coordinate.Fits (a.y + dy)) ∧ a.moved dx dy = c := by
  unfold translate
  simp only [Check.bind_eq_ok, Coordinate.add_eq_ok, pure, Except.pure, Except.ok.injEq]
  constructor
  · rintro ⟨_, ⟨column, rfl⟩, _, ⟨row, rfl⟩, rfl⟩
    exact ⟨⟨column, row⟩, rfl⟩
  · rintro ⟨⟨column, row⟩, rfl⟩
    exact ⟨_, ⟨column, rfl⟩, _, ⟨row, rfl⟩, rfl⟩

theorem grow_eq_ok : a.grow left top right bottom = .ok c ↔
    (Coordinate.Fits (a.x - Coordinate.ofExtent left) ∧
      Coordinate.Fits (a.y - Coordinate.ofExtent top)) ∧
    (a.width + left + right < Extent.modulus ∧ a.height + top + bottom < Extent.modulus) ∧
    { a.grown left top right bottom with
      x := a.x - Coordinate.ofExtent left
      y := a.y - Coordinate.ofExtent top } = c := by
  unfold grow
  simp only [Check.bind_eq_ok, Coordinate.sub_eq_ok, Extent.add_eq_ok, pure, Except.pure,
    Except.ok.injEq]
  constructor
  · rintro ⟨_, ⟨column, rfl⟩, _, ⟨row, rfl⟩, _, ⟨_, rfl⟩, _, ⟨width, rfl⟩, _, ⟨_, rfl⟩, _,
      ⟨height, rfl⟩, rfl⟩
    exact ⟨⟨column, row⟩, ⟨width, height⟩, rfl⟩
  · rintro ⟨⟨column, row⟩, ⟨width, height⟩, rfl⟩
    exact ⟨_, ⟨column, rfl⟩, _, ⟨row, rfl⟩, _, ⟨by omega, rfl⟩, _, ⟨width, rfl⟩, _,
      ⟨by omega, rfl⟩, _, ⟨height, rfl⟩, rfl⟩

namespace Representable

theorem translate_eq (h : (a.moved dx dy).Representable) :
    a.translate dx dy = .ok (a.moved dx dy) :=
  translate_eq_ok.2 ⟨⟨h.left_fits, h.top_fits⟩, rfl⟩

/-- Margins that lead to a representable box are no more than the greatest coordinate, so they
keep their value. -/
theorem margins_eq (h : (a.grown left top right bottom).Representable) :
    Coordinate.ofExtent left = left ∧ Coordinate.ofExtent top = top := by
  have width := h.width_le
  have height := h.height_le
  simp only [grown] at width height
  constructor
  · exact Coordinate.ofExtent_of_le (by omega)
  · exact Coordinate.ofExtent_of_le (by omega)

theorem grow_eq (h : (a.grown left top right bottom).Representable) :
    a.grow left top right bottom = .ok (a.grown left top right bottom) := by
  have width := h.width_le
  have height := h.height_le
  have column := h.left_fits
  have row := h.top_fits
  simp only [grown] at width height column row
  rw [grow_eq_ok, h.margins_eq.1, h.margins_eq.2]
  unfold Coordinate.greatest at width height
  unfold Extent.modulus
  exact ⟨⟨column, row⟩, ⟨by omega, by omega⟩, rfl⟩

/-- A box reaches no farther than with margins. -/
theorem of_grown (h : (a.grown left top right bottom).Representable) : a.Representable := by
  obtain ⟨⟨width, height, right_fits, bottom_fits⟩, left_fits, top_fits⟩ := h
  unfold Coordinate.Fits at *
  simp only [grown] at *
  exact {
    width_le := by omega
    height_le := by omega
    right_fits := by unfold Coordinate.Fits; omega
    bottom_fits := by unfold Coordinate.Fits; omega
    left_fits := by unfold Coordinate.Fits; omega
    top_fits := by unfold Coordinate.Fits; omega }

end Representable

/-- Containment of a box with pixels is containment of its pixels. -/
theorem containsBox_iff_pixels (ha : a.Signed) (hb : b.Signed) (nonempty : ¬b.IsEmpty) :
    ∃ contained, a.containsBox b = .ok contained ∧
      (contained = true ↔ ∀ x y, b.contains x y = .ok true → a.contains x y = .ok true) := by
  obtain ⟨contained, returned, decided⟩ := ha.containsBox_returns hb
  refine ⟨contained, returned, ?_⟩
  rw [decided, within_iff_has nonempty]
  simp only [ha.contains_iff, hb.contains_iff]

/-- A box moves with its pixels if and only if the moved box is representable. -/
theorem translate_shifts_iff (ha : a.Signed) : (a.moved dx dy).Representable ↔
    ∃ m, a.translate dx dy = .ok m ∧ ∀ x y, ∃ contained,
      m.contains x y = .ok contained ∧ a.contains (x - dx) (y - dy) = .ok contained := by
  constructor
  · intro representable
    refine ⟨_, representable.translate_eq, fun x y => ?_⟩
    obtain ⟨contained, returned, decided⟩ := representable.contains_returns x y
    exact ⟨contained, returned, ha.contains_eq_ok.2 (decided.trans moved_has)⟩
  · rintro ⟨m, made, shifted⟩
    obtain ⟨⟨left_fits, top_fits⟩, rfl⟩ := translate_eq_ok.1 made
    obtain ⟨contained, returned, -⟩ := shifted 0 0
    obtain ⟨⟨right_fits, bottom_fits⟩, -⟩ := contains_eq_ok.1 returned
    have width : Coordinate.ofExtent a.width = a.width := Coordinate.ofExtent_of_le ha.width_le
    have height : Coordinate.ofExtent a.height = a.height := Coordinate.ofExtent_of_le ha.height_le
    simp only [Box.right, Box.bottom, moved, width, height] at right_fits bottom_fits
    exact {
      width_le := ha.width_le
      height_le := ha.height_le
      right_fits := right_fits
      bottom_fits := bottom_fits
      left_fits := left_fits
      top_fits := top_fits }

/-- If the first pixel of a box is still in the box that was grown, then the words of the margins
and of the new extents have kept their values. -/
theorem representable_of_grow (made : a.grow left top right bottom = .ok c)
    (kept : c.contains a.x a.y = .ok true) : (a.grown left top right bottom).Representable := by
  obtain ⟨⟨left_fits, top_fits⟩, ⟨width_word, height_word⟩, rfl⟩ := grow_eq_ok.1 made
  obtain ⟨⟨right_fits, bottom_fits⟩, inside⟩ := contains_eq_ok.1 kept
  simp only [Box.right, Box.bottom, grown, true_iff] at right_fits bottom_fits inside
  have left_le := Coordinate.le_greatest_of_ofExtent (n := left) (by omega) (by omega)
  have top_le := Coordinate.le_greatest_of_ofExtent (n := top) (by omega) (by omega)
  rw [Coordinate.ofExtent_of_le left_le] at left_fits right_fits inside
  rw [Coordinate.ofExtent_of_le top_le] at top_fits bottom_fits inside
  have width_le := Coordinate.le_greatest_of_ofExtent width_word (by omega)
  have height_le := Coordinate.le_greatest_of_ofExtent height_word (by omega)
  rw [Coordinate.ofExtent_of_le width_le] at right_fits
  rw [Coordinate.ofExtent_of_le height_le] at bottom_fits
  exact {
    width_le := width_le
    height_le := height_le
    right_fits := right_fits
    bottom_fits := bottom_fits
    left_fits := left_fits
    top_fits := top_fits }

/-- A box with pixels grows to the pixels within its margins if and only if the grown box is
representable. -/
theorem grow_reaches_iff (ha : a.Signed) (nonempty : ¬a.IsEmpty) :
    (a.grown left top right bottom).Representable ↔
      ∃ g, a.grow left top right bottom = .ok g ∧ ∀ x y, ∃ contained,
        g.contains x y = .ok contained ∧ (contained = true ↔
          ∃ x' y', a.contains x' y' = .ok true ∧ (-left ≤ x - x' ∧ x - x' ≤ right) ∧
            -top ≤ y - y' ∧ y - y' ≤ bottom) := by
  simp only [ha.contains_iff]
  constructor
  · intro representable
    refine ⟨_, representable.grow_eq, fun x y => ?_⟩
    obtain ⟨contained, returned, decided⟩ := representable.contains_returns x y
    exact ⟨contained, returned, decided.trans (grown_has nonempty)⟩
  · rintro ⟨g, made, reached⟩
    -- no margin may lose a pixel of the box itself, and its first pixel shows whether one does
    obtain ⟨contained, returned, decided⟩ := reached a.x a.y
    have near : contained = true :=
      decided.2 ⟨a.x, a.y, has_first nonempty, by omega, by omega⟩
    rw [near] at returned
    exact representable_of_grow made returned

/-- An extent that fits a signed word is the difference of the corners on either side of it. -/
theorem sub_corners {start : Int} {len : Nat} (h : (len : Int) ≤ Coordinate.greatest) :
    Coordinate.sub (start + len) start = .ok (len : Int) := by
  have difference : start + len - start = len := by omega
  have fits : Coordinate.Fits len := ⟨Int.le_trans (by decide) (Int.natCast_nonneg len), h⟩
  rw [Coordinate.sub_eq_ok, difference]
  exact ⟨fits, rfl⟩

theorem ofCorners_high (ha : a.Signed) : (a.high >>= ofCorners a.low) = .ok a := by
  have high : a.high = .ok (a.x + a.width, a.y + a.height) := by
    rw [← ha.right_eq, ← ha.bottom_eq]
    exact (high_yields ha.ends).eq_ok
  have width : Coordinate.sub (a.x + a.width) a.x = .ok (a.width : Int) := sub_corners ha.width_le
  have height : Coordinate.sub (a.y + a.height) a.y = .ok (a.height : Int) :=
    sub_corners ha.height_le
  simp only [ofCorners, low, high, Check.ok_bind, width, height, Int.toNat_natCast]
  rfl

end Results

section Sequences

theorem moved_moved : (a.moved dx dy).moved dx' dy' = a.moved (dx + dx') (dy + dy') := by
  simp [moved, Int.add_assoc]

theorem grown_grown : (a.grown left top right bottom).grown left' top' right' bottom' =
    a.grown (left + left') (top + top') (right + right') (bottom + bottom') := by
  simp only [grown, mk.injEq]
  omega

theorem grown_moved : (a.grown left top right bottom).moved dx dy =
    (a.moved dx dy).grown left top right bottom := by
  simp only [grown, moved, mk.injEq, and_true]
  omega

/-- Displacements add up. -/
theorem translate_translate : Check.Coincide
    ((a.moved dx dy).Representable ∧ (a.moved (dx + dx') (dy + dy')).Representable)
    (a.translate dx dy >>= (·.translate dx' dy')) (a.translate (dx + dx') (dy + dy')) where
  agree c c' one_by_one at_once := by
    obtain ⟨m, first, second⟩ := Check.bind_eq_ok.1 one_by_one
    obtain ⟨-, rfl⟩ := translate_eq_ok.1 first
    obtain ⟨-, rfl⟩ := translate_eq_ok.1 second
    obtain ⟨-, rfl⟩ := translate_eq_ok.1 at_once
    exact moved_moved
  return_of := by
    rintro ⟨first, both⟩
    refine ⟨_, ?_, both.translate_eq⟩
    rw [← moved_moved] at both ⊢
    rw [first.translate_eq, Check.ok_bind, both.translate_eq]

/-- Margins add up. -/
theorem grow_grow : Check.Coincide
    (a.grown (left + left') (top + top') (right + right') (bottom + bottom')).Representable
    (a.grow left top right bottom >>= (·.grow left' top' right' bottom'))
    (a.grow (left + left') (top + top') (right + right') (bottom + bottom')) where
  agree c c' one_by_one at_once := by
    obtain ⟨g, first, second⟩ := Check.bind_eq_ok.1 one_by_one
    obtain ⟨-, -, rfl⟩ := grow_eq_ok.1 first
    obtain ⟨⟨column, row⟩, -, rfl⟩ := grow_eq_ok.1 second
    obtain ⟨⟨column', row'⟩, -, rfl⟩ := grow_eq_ok.1 at_once
    have columns := Coordinate.sub_ofExtent_add column column'
    have rows := Coordinate.sub_ofExtent_add row row'
    simp only [grown, columns, rows, mk.injEq, true_and]
    omega
  return_of both := by
    refine ⟨_, ?_, both.grow_eq⟩
    rw [← grown_grown] at both ⊢
    rw [both.of_grown.grow_eq, Check.ok_bind, both.grow_eq]

/-- Displacements and margins can be exchanged. -/
theorem grow_translate : Check.Coincide
    ((a.grown left top right bottom).Representable ∧
      ((a.grown left top right bottom).moved dx dy).Representable)
    (a.grow left top right bottom >>= (·.translate dx dy))
    (a.translate dx dy >>= (·.grow left top right bottom)) where
  agree c c' grown_first moved_first := by
    obtain ⟨g, first, second⟩ := Check.bind_eq_ok.1 grown_first
    obtain ⟨m, first', second'⟩ := Check.bind_eq_ok.1 moved_first
    obtain ⟨-, -, rfl⟩ := grow_eq_ok.1 first
    obtain ⟨-, rfl⟩ := translate_eq_ok.1 second
    obtain ⟨-, rfl⟩ := translate_eq_ok.1 first'
    obtain ⟨-, -, rfl⟩ := grow_eq_ok.1 second'
    simp only [grown, moved, mk.injEq, and_true]
    omega
  return_of := by
    rintro ⟨grows, both⟩
    refine ⟨_, by rw [grows.grow_eq, Check.ok_bind, both.translate_eq], ?_⟩
    rw [grown_moved] at both ⊢
    -- the moved box lies within its margins, so it is representable as well
    rw [both.of_grown.translate_eq, Check.ok_bind, both.grow_eq]

end Sequences

/-- The operations on boxes mean what they say of pixels. A box contains another one that has pixels
exactly if it has all of these, so never if it has none itself. A translation shifts the pixels and
margins add those within their reach, precisely where the box that they lead to is representable.
A box is given back by its corners. Translations and margins add up and can be exchanged: the
sequences agree as far as they return, and they return where they lead to representable boxes. -/
theorem operations_act_on_pixels (ha : a.Signed) (hb : b.Signed) :
    (¬b.IsEmpty → ∃ contained, a.containsBox b = .ok contained ∧
      (contained = true ↔ ∀ x y, b.contains x y = .ok true → a.contains x y = .ok true) ∧
      (a.IsEmpty → contained = false)) ∧
    (∀ dx dy, (a.moved dx dy).Representable ↔
      ∃ m, a.translate dx dy = .ok m ∧ ∀ x y, ∃ contained,
        m.contains x y = .ok contained ∧ a.contains (x - dx) (y - dy) = .ok contained) ∧
    (¬a.IsEmpty → ∀ left top right bottom, (a.grown left top right bottom).Representable ↔
      ∃ g, a.grow left top right bottom = .ok g ∧ ∀ x y, ∃ contained,
        g.contains x y = .ok contained ∧ (contained = true ↔
          ∃ x' y', a.contains x' y' = .ok true ∧ (-left ≤ x - x' ∧ x - x' ≤ right) ∧
            -top ≤ y - y' ∧ y - y' ≤ bottom)) ∧
    (a.high >>= ofCorners a.low) = .ok a ∧
    (∀ dx dy dx' dy', Check.Coincide
      ((a.moved dx dy).Representable ∧ (a.moved (dx + dx') (dy + dy')).Representable)
      (a.translate dx dy >>= (·.translate dx' dy')) (a.translate (dx + dx') (dy + dy'))) ∧
    (∀ left top right bottom left' top' right' bottom', Check.Coincide
      (a.grown (left + left') (top + top') (right + right') (bottom + bottom')).Representable
      (a.grow left top right bottom >>= (·.grow left' top' right' bottom'))
      (a.grow (left + left') (top + top') (right + right') (bottom + bottom'))) ∧
    ∀ left top right bottom dx dy, Check.Coincide
      ((a.grown left top right bottom).Representable ∧
        ((a.grown left top right bottom).moved dx dy).Representable)
      (a.grow left top right bottom >>= (·.translate dx dy))
      (a.translate dx dy >>= (·.grow left top right bottom)) := by
  refine ⟨fun nonempty => ?_, fun dx dy => translate_shifts_iff ha,
    fun nonempty left top right bottom => grow_reaches_iff ha nonempty, ofCorners_high ha,
    fun dx dy dx' dy' => translate_translate,
    fun left top right bottom left' top' right' bottom' => grow_grow,
    fun left top right bottom dx dy => grow_translate⟩
  obtain ⟨contained, returned, decided⟩ := containsBox_iff_pixels ha hb nonempty
  refine ⟨contained, returned, decided, fun empty => ?_⟩
  rw [Bool.eq_false_iff]
  intro inside
  have first := decided.1 inside b.x b.y (hb.contains_iff.2 (has_first nonempty))
  exact empty.not_has (ha.contains_iff.1 first)

section Examples

/-- A box near the left end of the coordinates. -/
def brink : Box := { x := Coordinate.least + 3, y := 5, width := 4, height := 2 }

/-- The last pixel of that box. -/
def brinkEnd : Box := { x := Coordinate.least + 6, y := 6, width := 1, height := 1 }

theorem brink_acts_on_pixels :
    (brink.Signed ∧ brinkEnd.Signed) ∧
      (brink.containsBox brinkEnd = .ok true ∧
        ∀ x y, brinkEnd.contains x y = .ok true → brink.contains x y = .ok true) ∧
      (∀ x y, (brink.moved (-3) 1).contains x y = brink.contains (x + 3) (y - 1)) ∧
      (∃ x' y', brink.contains x' y' = .ok true ∧
        (-3 ≤ Coordinate.least - x' ∧ Coordinate.least - x' ≤ 1) ∧ 0 ≤ 8 - y' ∧ 8 - y' ≤ 2) ∧
      (brink.high >>= ofCorners brink.low) = .ok brink ∧
      (∃ r, (brink.translate (-3) 1 >>= (·.translate Coordinate.greatest 0)) = .ok r ∧
        brink.translate (-3 + Coordinate.greatest) (1 + 0) = .ok r) ∧
      (∃ r, (brink.grow 1 0 1 0 >>= (·.grow 2 0 0 2)) = .ok r ∧
        brink.grow (1 + 2) (0 + 0) (1 + 0) (0 + 2) = .ok r) ∧
      ∃ r, (brink.grow 3 0 1 2 >>= (·.translate 9 (-4))) = .ok r ∧
        (brink.translate 9 (-4) >>= (·.grow 3 0 1 2)) = .ok r := by
  have brink_signed : brink.Signed := by decide
  have brinkEnd_signed : brinkEnd.Signed := by decide
  obtain ⟨contains, shifts, reaches, corners, displacements, margins, exchanged⟩ :=
    operations_act_on_pixels brink_signed brinkEnd_signed
  refine ⟨⟨brink_signed, brinkEnd_signed⟩, ?_, ?_, ?_, corners, ?_, ?_, ?_⟩
  · obtain ⟨contained, returned, decided, -⟩ := contains (by decide)
    have inside : contained = true := Except.ok.inj (returned.symm.trans rfl)
    rw [inside] at returned
    exact ⟨returned, decided.1 inside⟩
  · obtain ⟨m, made, shifted⟩ := (shifts (-3) 1).1 (by decide)
    have same : m = brink.moved (-3) 1 := Except.ok.inj (made.symm.trans rfl)
    rw [← same]
    intro x y
    obtain ⟨contained, returned, returned'⟩ := shifted x y
    rw [returned, ← returned', Int.sub_neg]
  · obtain ⟨g, made, reached⟩ := (reaches (by decide) 3 0 1 2).1 (by decide)
    have same : g = brink.grown 3 0 1 2 := Except.ok.inj (made.symm.trans rfl)
    obtain ⟨contained, returned, decided⟩ := reached Coordinate.least 8
    rw [same] at returned
    have inside : contained = true := Except.ok.inj (returned.symm.trans rfl)
    exact decided.1 inside
  · exact (displacements (-3) 1 Coordinate.greatest 0).return_of (by decide)
  · exact (margins 1 0 1 0 2 0 0 2).return_of (by decide)
  · exact (exchanged 3 0 1 2 9 (-4)).return_of (by decide)

end Examples

end Box

end ImageViews
