import ImageViews.Box
import ImageViews.Proofs.Near

/-!
# Pixels of boxes

The corners of boxes are compared as signed words. Where the extent of a box fits a signed word its
corners say which pixels it has. A box is moderate when its coordinates, its lines and its buffer
stay within a quarter of the greatest coordinate, so that the sums formed of a few of them fit.
-/
namespace ImageViews

variable {E : Fault → Prop}

namespace Box

variable {b b' : Box} {bytes planes : Nat} {x y : Int}

/-- The pixel `(x, y)` lies in the box. -/
def Has (b : Box) (x y : Int) : Prop :=
  (b.x ≤ x ∧ x < b.x + b.width) ∧ b.y ≤ y ∧ y < b.y + b.height

theorem has_add {i j : Nat} (hi : i < b.width) (hj : j < b.height) :
    b.Has (b.x + i) (b.y + j) := by
  unfold Has
  omega

theorem IsEmpty.not_has (h : b.IsEmpty) : ¬b.Has x y := by
  unfold IsEmpty at h
  unfold Has
  omega

/-- The corners of the box lie between the corners of the other one. -/
def Within (b b' : Box) : Prop :=
  (b'.x ≤ b.x ∧ b.x + b.width ≤ b'.x + b'.width) ∧
    b'.y ≤ b.y ∧ b.y + b.height ≤ b'.y + b'.height

theorem Within.refl : b.Within b := by
  unfold Within
  omega

theorem Within.has (h : b.Within b') (hb : b.Has x y) : b'.Has x y := by
  unfold Within at h
  unfold Has at hb ⊢
  omega

/-- The column behind the last one as a signed word. -/
def right (b : Box) : Int := b.x + Coordinate.ofExtent b.width

/-- The row behind the last one as a signed word. -/
def bottom (b : Box) : Int := b.y + Coordinate.ofExtent b.height

@[simp] theorem right_ofExtent (cols rows : Nat) :
    (ofExtent cols rows).right = Coordinate.ofExtent cols := Int.zero_add _

@[simp] theorem bottom_ofExtent (cols rows : Nat) :
    (ofExtent cols rows).bottom = Coordinate.ofExtent rows := Int.zero_add _

/-- The corners of the box fit signed words, or overflows are tolerated. -/
def Ends (E : Fault → Prop) (b : Box) : Prop :=
  E .overflow ∨ Coordinate.Fits b.right ∧ Coordinate.Fits b.bottom

theorem high_yields (hb : b.Ends E) : b.high.Yields E (· = (b.right, b.bottom)) := by
  refine Check.Yields.bind (Coordinate.add_yields (hb.imp_right (·.1)) ?_)
  intro _
  exact Check.Yields.bind (Coordinate.add_yields (hb.imp_right (·.2)) fun _ => Check.Yields.ok rfl)

theorem high_eq_ok {high : Int × Int} : b.high = .ok high ↔
    (Coordinate.Fits b.right ∧ Coordinate.Fits b.bottom) ∧ (b.right, b.bottom) = high := by
  unfold Box.high
  simp only [Check.bind_eq_ok, Coordinate.add_eq_ok, pure, Except.pure, Except.ok.injEq]
  constructor
  · rintro ⟨_, ⟨right, rfl⟩, _, ⟨bottom, rfl⟩, rfl⟩
    exact ⟨⟨right, bottom⟩, rfl⟩
  · rintro ⟨⟨right, bottom⟩, rfl⟩
    exact ⟨_, ⟨right, rfl⟩, _, ⟨bottom, rfl⟩, rfl⟩

theorem contains_eq_ok {contained : Bool} : b.contains x y = .ok contained ↔
    (Coordinate.Fits b.right ∧ Coordinate.Fits b.bottom) ∧
      (contained = true ↔ (b.x ≤ x ∧ x < b.right) ∧ b.y ≤ y ∧ y < b.bottom) := by
  have compared : (b.x ≤ x && b.y ≤ y && x < b.right && y < b.bottom) = true ↔
      (b.x ≤ x ∧ x < b.right) ∧ b.y ≤ y ∧ y < b.bottom := by
    simp only [Bool.and_eq_true, decide_eq_true_eq]
    omega
  unfold contains
  simp only [Check.bind_eq_ok, high_eq_ok, pure, Except.pure, Except.ok.injEq]
  constructor
  · rintro ⟨_, ⟨fits, rfl⟩, rfl⟩
    exact ⟨fits, compared⟩
  · rintro ⟨fits, decided⟩
    exact ⟨_, ⟨fits, rfl⟩, Bool.eq_iff_iff.2 (compared.trans decided.symm)⟩

theorem containsBox_yields (hb : b.Ends E) (hb' : b'.Ends E) :
    (b.containsBox b').Yields E fun contained => contained = true ↔
      (b.x ≤ b'.x ∧ b'.right ≤ b.right) ∧ b.y ≤ b'.y ∧ b'.bottom ≤ b.bottom := by
  refine Check.Yields.bind ((high_yields hb).mono ?_)
  rintro _ rfl
  refine Check.Yields.bind ((high_yields hb').mono ?_)
  rintro _ rfl
  apply Check.Yields.ok
  simp only [Bool.and_eq_true, decide_eq_true_eq]
  omega

theorem translate_yields {dx dy : Int}
    (room : E .overflow ∨ Coordinate.Fits (b.x + dx) ∧ Coordinate.Fits (b.y + dy)) :
    (b.translate dx dy).Yields E (· = { b with x := b.x + dx, y := b.y + dy }) := by
  refine Check.Yields.bind (Coordinate.add_yields (room.imp_right (·.1)) ?_)
  intro _
  exact Check.Yields.bind
    (Coordinate.add_yields (room.imp_right (·.2)) fun _ => Check.Yields.ok rfl)

theorem ofCorners_yields {low high : Int × Int}
    (room : E .overflow ∨ Coordinate.Fits (high.1 - low.1) ∧ Coordinate.Fits (high.2 - low.2)) :
    (ofCorners low high).Yields E fun b => b = {
      x := low.1
      y := low.2
      width := (high.1 - low.1).toNat
      height := (high.2 - low.2).toNat } := by
  refine Check.Yields.bind (Coordinate.sub_yields (room.imp_right (·.1)) ?_)
  intro _
  exact Check.Yields.bind
    (Coordinate.sub_yields (room.imp_right (·.2)) fun _ => Check.Yields.ok rfl)

/-- The box between the larger of the first corners and the smaller of the last ones. -/
def overlap (b b' : Box) : Box where
  x := max b.x b'.x
  y := max b.y b'.y
  width := (min b.right b'.right - max b.x b'.x).toNat
  height := (min b.bottom b'.bottom - max b.y b'.y).toNat

/-- The overlap with an extent has the pixels that lie in both. -/
theorem overlap_has {cols rows : Nat} (hwidth : (b.width : Int) ≤ Coordinate.greatest)
    (hheight : (b.height : Int) ≤ Coordinate.greatest) :
    (b.overlap (ofExtent cols rows)).Has x y ↔ b.Has x y ∧
      (0 ≤ x ∧ x < Coordinate.ofExtent cols) ∧ 0 ≤ y ∧ y < Coordinate.ofExtent rows := by
  simp only [Has, overlap, Box.right, Box.bottom,
    Coordinate.ofExtent_of_le hwidth, Coordinate.ofExtent_of_le hheight]
  simp only [ofExtent]
  omega

theorem overlap_nonempty (nonempty : ¬(b.overlap b').IsEmpty) : 0 < b.width ∧ 0 < b.height := by
  simp only [IsEmpty, overlap, Box.right, Box.bottom] at nonempty
  constructor
  · apply Nat.pos_of_ne_zero
    intro none
    have : Coordinate.ofExtent b.width = 0 := by rw [none]; rfl
    omega
  · apply Nat.pos_of_ne_zero
    intro none
    have : Coordinate.ofExtent b.height = 0 := by rw [none]; rfl
    omega

theorem overlap_within (nonempty : ¬(b.overlap b').IsEmpty) (hx : b.right = b.x + b.width)
    (hy : b.bottom = b.y + b.height) (hx' : b'.right = b'.x + b'.width)
    (hy' : b'.bottom = b'.y + b'.height) :
    (b.overlap b').Within b ∧ (b.overlap b').Within b' := by
  unfold IsEmpty at nonempty
  simp only [Within, overlap, hx, hy, hx', hy'] at nonempty ⊢
  omega

theorem intersect_yields (hb : b.Ends E) (hb' : b'.Ends E)
    (room : E .overflow ∨ Coordinate.Fits (min b.right b'.right - max b.x b'.x) ∧
      Coordinate.Fits (min b.bottom b'.bottom - max b.y b'.y)) :
    (b.intersect b').Yields E
      (· = if (b.overlap b').IsEmpty then none else some (b.overlap b')) := by
  refine Check.Yields.bind ((high_yields hb).mono ?_)
  rintro _ rfl
  refine Check.Yields.bind ((high_yields hb').mono ?_)
  rintro _ rfl
  refine Check.Yields.bind ((ofCorners_yields room).mono ?_)
  rintro _ rfl
  exact Check.Yields.ok rfl

/-- The coordinates, the lines and the buffer of the box stay within a quarter of the greatest
coordinate, and so do the coordinates counted in cells of that buffer. -/
structure Moderate (bytes planes : Nat) (b : Box) : Prop where
  left : Near planes b.x
  right : Near planes (b.x + b.width)
  top : Near (b.width * planes) b.y
  bottom : Near (b.width * planes) (b.y + b.height)
  line : b.width * max 1 planes ≤ quarter
  depth : planes ≤ quarter
  cells : b.width * b.height * max 1 planes ≤ quarter
  memory : ((bytes * (b.width * b.height * planes) : Nat) : Int) ≤ Coordinate.greatest
  indices : ((8 * b.width : Nat) : Int) ≤ Coordinate.greatest ∧
    ((8 * b.height : Nat) : Int) ≤ Coordinate.greatest

instance (bytes planes : Nat) (b : Box) : Decidable (b.Moderate bytes planes) :=
  decidable_of_iff ((Near planes b.x ∧ Near planes (b.x + b.width)) ∧
    (Near (b.width * planes) b.y ∧ Near (b.width * planes) (b.y + b.height)) ∧
    (b.width * max 1 planes ≤ quarter ∧ planes ≤ quarter) ∧
    b.width * b.height * max 1 planes ≤ quarter ∧
    ((bytes * (b.width * b.height * planes) : Nat) : Int) ≤ Coordinate.greatest ∧
    ((8 * b.width : Nat) : Int) ≤ Coordinate.greatest ∧
      ((8 * b.height : Nat) : Int) ≤ Coordinate.greatest)
    ⟨fun ⟨⟨left, right⟩, ⟨top, bottom⟩, ⟨line, depth⟩, cells, memory, indices⟩ =>
      { left, right, top, bottom, line, depth, cells, memory, indices },
    fun h => ⟨⟨h.left, h.right⟩, ⟨h.top, h.bottom⟩, ⟨h.line, h.depth⟩, h.cells, h.memory,
      h.indices⟩⟩

namespace Moderate

theorem within (h : b'.Moderate bytes planes) (hb : b.Within b') : b.Moderate bytes planes := by
  obtain ⟨⟨left, right⟩, top, bottom⟩ := hb
  have width : b.width ≤ b'.width := by omega
  have height : b.height ≤ b'.height := by omega
  have line : b.width * planes ≤ b'.width * planes := Nat.mul_le_mul_right _ width
  have pixels : b.width * b.height ≤ b'.width * b'.height := Nat.mul_le_mul width height
  have bytes_le : bytes * (b.width * b.height * planes) ≤
      bytes * (b'.width * b'.height * planes) :=
    Nat.mul_le_mul_left _ (Nat.mul_le_mul_right _ pixels)
  have := h.memory
  have := h.indices
  exact {
    left := h.left.between h.right left (by omega)
    right := h.left.between h.right (by omega) right
    top := (h.top.between h.bottom top (by omega)).mono line
    bottom := (h.top.between h.bottom (by omega) bottom).mono line
    line := Nat.le_trans (Nat.mul_le_mul_right _ width) h.line
    depth := h.depth
    cells := Nat.le_trans (Nat.mul_le_mul_right _ pixels) h.cells
    memory := by omega
    indices := by omega }

theorem width_le (h : b.Moderate bytes planes) : b.width ≤ quarter :=
  Nat.le_trans (Nat.le_mul_of_pos_right _ (by omega)) h.line

theorem height_le (h : b.Moderate bytes planes) : b.height ≤ quarter := by
  have := h.indices
  unfold Coordinate.greatest at this
  unfold quarter
  omega

theorem line_le (h : b.Moderate bytes planes) : b.width * planes ≤ quarter :=
  Nat.le_trans (Nat.mul_le_mul_left _ (by omega)) h.line

/-- The strides of the buffer of the box, as signed words. -/
theorem strides (h : b.Moderate bytes planes) :
    (Coordinate.ofExtent planes).natAbs = planes ∧
      (Coordinate.ofExtent (b.width * planes)).natAbs = b.width * planes := by
  have depth := h.depth
  have line := h.line_le
  rw [Coordinate.ofExtent_of_quarter (by omega), Coordinate.ofExtent_of_quarter line]
  omega

/-- The buffer of the box in coordinates of its own. -/
theorem buffer (h : b.Moderate bytes planes) :
    (ofExtent b.width b.height).Moderate bytes planes where
  left := Nat.le_trans (by simp [ofExtent]) (Nat.zero_le _)
  right := by
    have := h.line
    simpa [Near, ofExtent] using this
  top := Nat.le_trans (by simp [ofExtent]) (Nat.zero_le _)
  bottom := by
    have height := h.height_le
    have cells := h.cells
    have rows : b.height * max 1 (b.width * planes) ≤ quarter := by
      rcases Nat.eq_zero_or_pos b.width with none | some
      · simpa [none] using height
      · have line : max 1 (b.width * planes) ≤ b.width * max 1 planes := by
          have := Nat.le_mul_of_pos_right b.width (Nat.lt_of_lt_of_le Nat.one_pos
            (Nat.le_max_left 1 planes))
          have : b.width * planes ≤ b.width * max 1 planes := Nat.mul_le_mul_left _ (by omega)
          omega
        calc b.height * max 1 (b.width * planes) ≤ b.height * (b.width * max 1 planes) :=
              Nat.mul_le_mul_left _ line
          _ = b.width * b.height * max 1 planes := by
              rw [← Nat.mul_assoc, Nat.mul_comm b.height]
          _ ≤ quarter := cells
    simpa [Near, ofExtent] using rows
  line := h.line
  depth := h.depth
  cells := h.cells
  memory := h.memory
  indices := h.indices

/-- The bounds in a form that linear arithmetic can use. -/
theorem bounds (h : b.Moderate bytes planes) :
    (-quarter ≤ b.x ∧ b.x + b.width ≤ quarter) ∧ -quarter ≤ b.y ∧ b.y + b.height ≤ quarter :=
  ⟨⟨h.left.bounds.1, h.right.bounds.2⟩, h.top.bounds.1, h.bottom.bounds.2⟩

end Moderate

end Box

end ImageViews
