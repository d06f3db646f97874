import ImageViews.Proofs.Moves
import ImageViews.Proofs.Selection

/-!
# Cursors over selected planes

Two cursors walk over a buffer and over the selected planes of it. Both keep offsets, of which the
one is `step` times longer, or both keep positions. They are level while they move along columns and
rows, and meet at the selected planes; in between the first cursor moves on while the second one
waits.
-/
namespace ImageViews

/-- A plane of `planes` whose counterpart can be named. -/
def Selection.Names (sel : Selection) (planes i : Nat) : Prop :=
  sel.step = 1 ∨ i < planes ∧ sel.nth i < Extent.modulus

namespace Addressing

/-- Strides of which the one are `step` times longer, where offsets can name each of the selected
`planes`, or two ways to keep positions. -/
def Scaled (sel : Selection) (planes : Nat) : Addressing → Addressing → Prop
  | strides col row plane, strides col' row' plane' =>
    (col = sel.step * col' ∧ row = sel.step * row') ∧ (plane = 1 ∧ plane' = 1) ∧
      (sel.step = 1 ∨ ((sel.step * planes : Nat) : Int) ≤ Coordinate.greatest)
  | coordinates, coordinates => True
  | strides .., coordinates | coordinates, strides .. => False

/-- Places in the same column and row: an offset that is `step` times longer but for `r`, or
positions with planes related by `P`. -/
def Linked (sel : Selection) (r : Int) (P : Int → Int → Prop) :
    (a a' : Addressing) → a.Place → a'.Place → Prop
  | strides .., strides .., (o : Int), (o' : Int) => Coordinate.least ≤ o ∧ o = sel.step * o' + r
  | coordinates, coordinates, (place : Position), (place' : Position) =>
    (place.x = place'.x ∧ place.y = place'.y) ∧ P place.p place'.p
  | strides .., coordinates, _, _ | coordinates, strides .., _, _ => False

variable {sel : Selection} {T : Fault → Prop} {planes : Nat} {a a' : Addressing} {place : a.Place}
  {place' : a'.Place} {P Q : Int → Int → Prop} {r : Int} {i j : Nat}

/-- Both places are in plane zero. -/
abbrev Level (sel : Selection) (a a' : Addressing) : a.Place → a'.Place → Prop :=
  Linked sel 0 (fun p p' => p = 0 ∧ p' = 0) a a'

/-- The first place is in the plane `j`, the second one in the plane `i`. -/
abbrev Apart (sel : Selection) (j i : Nat) (a a' : Addressing) : a.Place → a'.Place → Prop :=
  Linked sel (j - sel.step * i) (fun p p' => (p = j ∧ p' = i) ∧ Coordinate.Fits j) a a'

/-- The first place is in the plane that is selected as the one of the second place. -/
abbrev Meets (sel : Selection) (planes : Nat) (a a' : Addressing) : a.Place → a'.Place → Prop :=
  Linked sel sel.first (fun p p' =>
    Extent.ofCoordinate p = sel.nth (Extent.ofCoordinate p') ∧
      sel.Names planes (Extent.ofCoordinate p')) a a'

/-- The strides of pixels that are stored row by row, where words hold them. -/
theorem scaled_rows {cols : Nat} (small : sel.step = 1 ∨
    ((sel.step * planes : Nat) : Int) ≤ Coordinate.greatest ∧
      ((cols * (sel.step * planes) : Nat) : Int) ≤ Coordinate.greatest) :
    Scaled sel planes
      (.strides (Coordinate.ofExtent (sel.step * planes))
        (Coordinate.ofExtent (cols * (sel.step * planes))) 1)
      (.strides (Coordinate.ofExtent planes) (Coordinate.ofExtent (cols * planes)) 1) := by
  have line_eq : cols * (sel.step * planes) = sel.step * (cols * planes) := Nat.mul_left_comm ..
  rcases small with one | ⟨pixel, line⟩
  · simp [Scaled, one]
  · have := Nat.le_mul_of_pos_left planes sel.step_pos
    have := Nat.le_mul_of_pos_left (cols * planes) sel.step_pos
    refine ⟨⟨?_, ?_⟩, ⟨rfl, rfl⟩, .inr pixel⟩
    · rw [Coordinate.ofExtent_of_le pixel, Coordinate.ofExtent_of_le (by omega), Int.natCast_mul]
    · rw [Coordinate.ofExtent_of_le line, Coordinate.ofExtent_of_le (by omega), line_eq,
        Int.natCast_mul]

theorem Linked.mono (h : Linked sel r P a a' place place') (hP : ∀ p p', P p p' → Q p p') :
    Linked sel r Q a a' place place' := by
  cases a <;> cases a'
  · exact h
  · exact h
  · exact h
  · exact ⟨h.1, hP _ _ h.2⟩

/-- Offsets start level. -/
theorem level_zero (col row plane col' row' plane' : Int) :
    Level sel (.strides col row plane) (.strides col' row' plane') (0 : Int) (0 : Int) :=
  ⟨by decide, by simp⟩

theorem Level.apart (h : Level sel a a' place place') : Apart sel 0 0 a a' place place' := by
  have start := h.mono (Q := fun p p' => (p = (0 : Nat) ∧ p' = (0 : Nat)) ∧ Coordinate.Fits 0)
    fun p p' planes => ⟨planes, by decide⟩
  simpa [Apart] using start

theorem Apart.meets (h : Apart sel (sel.nth i) i a a' place place') (hi : i < planes) :
    Meets sel planes a a' place place' := by
  have distance : ((sel.nth i : Nat) : Int) - sel.step * i = sel.first := by
    unfold Selection.nth
    omega
  unfold Apart at h
  rw [distance] at h
  apply h.mono
  rintro _ _ ⟨⟨rfl, rfl⟩, fits⟩
  have word := Extent.ofCoordinate_lt fits
  rw [Extent.ofCoordinate_natCast] at word ⊢
  rw [Extent.ofCoordinate_natCast]
  exact ⟨rfl, .inr ⟨hi, word⟩⟩

theorem Linked.meets (same : Linked sel 0 Eq a a' place place') (one : sel.step = 1) :
    Meets sel planes a a' place place' := by
  have first : (sel.first : Int) = 0 := by
    have := sel.first_lt
    omega
  unfold Meets
  rw [first]
  apply same.mono
  rintro p _ rfl
  exact ⟨(sel.nth_of_one one _).symm, .inl one⟩

section Moves

/-- An offset and one that is `step` times shorter, moved by distances of the same kind. -/
theorem offset_carries (room : sel.Room T) {o o' d d' e : Int} (along : o = sel.step * o' + r)
    (hd : d = sel.step * d' + e) (low : -(sel.step : Int) < r + e) (high : r + e < sel.step) :
    (Coordinate.add o d).Carries T (Coordinate.add o' d') fun a b =>
      Coordinate.least ≤ a ∧ a = sel.step * b + (r + e) := by
  have sum : o + d = sel.step * (o' + d') + (r + e) := by
    rw [along, hd, Int.mul_add]
    omega
  apply (Selection.coordinate_carries room sum low high).mono
  rintro _ _ - - ⟨rfl, rfl, fits⟩
  exact ⟨fits.1, sum⟩

/-- A step of a stride that leads from pixel to pixel. -/
theorem stride_carries (room : sel.Room T) {o o' d d' : Int} (along : o = sel.step * o' + r)
    (hd : d = sel.step * d') (low : -(sel.step : Int) < r) (high : r < sel.step) :
    (Coordinate.add o d).Carries T (Coordinate.add o' d') fun a b =>
      Coordinate.least ≤ a ∧ a = sel.step * b + r := by
  have moved := offset_carries room along (e := 0) (hd.trans (Int.add_zero _).symm) (by omega)
    (by omega)
  rwa [Int.add_zero] at moved

theorem nextCol_carries (room : sel.Room T) (scaled : Scaled sel planes a a')
    (h : Linked sel r P a a' place place') (low : -(sel.step : Int) < r) (high : r < sel.step) :
    (a.nextCol place).Carries T (a'.nextCol place') (Linked sel r P a a') := by
  cases a <;> cases a'
  · exact stride_carries room h.2 scaled.1.1 low high
  · exact scaled.elim
  · exact scaled.elim
  · obtain ⟨⟨x, y⟩, p⟩ := h
    change Check.Carries T
      (Coordinate.add (Position.x place) 1 >>= fun x => .ok { place with x := x })
      (Coordinate.add (Position.x place') 1 >>= fun x => .ok { place' with x := x }) _
    rw [x]
    apply Check.Carries.bind (.same _)
    rintro x' _ rfl
    exact .ok ⟨⟨rfl, y⟩, p⟩

theorem nextRow_carries (room : sel.Room T) (scaled : Scaled sel planes a a')
    (h : Linked sel r P a a' place place') (low : -(sel.step : Int) < r) (high : r < sel.step) :
    (a.nextRow place).Carries T (a'.nextRow place') (Linked sel r P a a') := by
  cases a <;> cases a'
  · exact stride_carries room h.2 scaled.1.2 low high
  · exact scaled.elim
  · exact scaled.elim
  · obtain ⟨⟨x, y⟩, p⟩ := h
    change Check.Carries T
      (Coordinate.add (Position.y place) 1 >>= fun y => .ok { place with y := y })
      (Coordinate.add (Position.y place') 1 >>= fun y => .ok { place' with y := y }) _
    rw [y]
    apply Check.Carries.bind (.same _)
    rintro y' _ rfl
    exact .ok ⟨⟨x, rfl⟩, p⟩

/-- From a plane that is selected both places move on. -/
theorem nextPlane_carries (room : sel.Room T) (scaled : Scaled sel planes a a')
    (h : Apart sel (sel.nth i) i a a' place place') :
    (a.nextPlane place).Carries T (a'.nextPlane place')
      (Apart sel (sel.nth i + 1) (i + 1) a a') := by
  have first := sel.first_lt
  have index : ((sel.nth i : Nat) : Int) = sel.step * i + sel.first := rfl
  have succ : (sel.step : Int) * (i + 1 : Nat) = sel.step * i + sel.step := by
    rw [Int.natCast_add, Int.mul_add]
    omega
  cases a <;> cases a'
  · obtain ⟨-, ⟨rfl, rfl⟩, -⟩ := scaled
    apply (offset_carries room h.2 (e := 1 - sel.step) (by omega) (by omega) (by omega)).mono
    rintro o o' - - ⟨least, along⟩
    exact ⟨least, by rw [along, succ]; omega⟩
  · exact scaled.elim
  · exact scaled.elim
  · obtain ⟨same, ⟨p, p'⟩, fits⟩ := h
    have plane : Position.p place + 1 = sel.step * (Position.p place' + 1) +
        (sel.first + 1 - sel.step) := by
      rw [p, p', Int.mul_add, index]
      omega
    change Check.Carries T
      (Coordinate.add (Position.p place) 1 >>= fun p => .ok { place with p := p })
      (Coordinate.add (Position.p place') 1 >>= fun p => .ok { place' with p := p }) _
    apply Check.Carries.bind (Selection.coordinate_carries room plane (by omega) (by omega))
    rintro _ _ ⟨rfl, rfl, fits⟩
    rw [p] at fits
    exact .ok ⟨same, ⟨by simp only [p]; omega, by simp only [p']; omega⟩, fits⟩

/-- In between the first place moves on while the second one waits. -/
theorem nextPlane_yields_apart (tolerant : Tolerant T) (scaled : Scaled sel planes a a')
    (h : Apart sel j i a a' place place') :
    (a.nextPlane place).Yields T (Apart sel (j + 1) i a a' · place') := by
  cases a <;> cases a'
  · obtain ⟨-, ⟨rfl, -⟩, -⟩ := scaled
    apply Coordinate.add_yields (.inl (tolerant _))
    intro fits
    exact ⟨fits.1, by rw [h.2]; omega⟩
  · exact scaled.elim
  · exact scaled.elim
  · obtain ⟨same, ⟨p, p'⟩, -⟩ := h
    refine Check.Yields.bind (Coordinate.add_yields (.inl (tolerant _)) fun fits => ?_)
    rw [p] at fits
    exact .ok ⟨same, ⟨by simp only [p]; omega, p'⟩, fits⟩

/-- Places in plane zero moved by the same columns and rows and by related planes. -/
theorem advance_carries (room : sel.Room T) (scaled : Scaled sel planes a a')
    (h : Linked sel 0 P a a' place place') {dx dy dp dp' e : Int}
    (hdp : a = .coordinates ∨ dp = sel.step * dp' + e) (low : -(sel.step : Int) < e)
    (high : e < sel.step)
    (word : ∀ p p', P p p' → (Coordinate.add p dp).Carries T (Coordinate.add p' dp') Q) :
    (a.advance place dx dy dp).Carries T (a'.advance place' dx dy dp') (Linked sel e Q a a') := by
  cases a <;> cases a'
  · obtain ⟨⟨col, row⟩, ⟨rfl, rfl⟩, -⟩ := scaled
    have along := hdp.resolve_left nofun
    have wide {d k k' : Int} (hk : k = sel.step * k') : d * k = sel.step * (d * k') + 0 := by
      rw [hk, Int.mul_left_comm, Int.add_zero]
    have positive := sel.step_pos
    apply Check.Carries.bind
      (Selection.coordinate_carries room (wide (d := dx) col) (by omega) (by omega))
    rintro cols cols' ⟨hcols, hcols', -⟩
    apply Check.Carries.bind
      (Selection.coordinate_carries room (wide (d := dy) row) (by omega) (by omega))
    rintro rows rows' ⟨hrows, hrows', -⟩
    have along_cols : cols = sel.step * cols' + 0 := by rw [hcols, hcols', wide col]
    have along_rows : rows = sel.step * rows' := by rw [hrows, hrows', wide row, Int.add_zero]
    have deep : dp * 1 = sel.step * (dp' * 1) + e := by rw [Int.mul_one, Int.mul_one, along]
    apply Check.Carries.bind
      (stride_carries room along_cols along_rows (by omega) (by omega))
    rintro planar planar' ⟨-, hplanar⟩
    apply Check.Carries.bind (Selection.coordinate_carries room deep low high)
    rintro depth depth' ⟨hdepth, hdepth', -⟩
    apply Check.Carries.bind (offset_carries room hplanar (e := e)
      (by rw [hdepth, hdepth', Int.mul_one, Int.mul_one, along]) (by omega) (by omega))
    rintro moved moved' ⟨-, hmoved⟩
    apply (offset_carries room h.2 (e := e) (by rw [hmoved]; omega) (by omega) (by omega)).mono
    rintro o o' - - ⟨least, along⟩
    exact ⟨least, by omega⟩
  · exact scaled.elim
  · exact scaled.elim
  · obtain ⟨⟨x, y⟩, depth⟩ := h
    change Check.Carries T
      (Coordinate.add (Position.x place) dx >>= fun x => Coordinate.add (Position.y place) dy >>=
        fun y => Coordinate.add (Position.p place) dp >>= fun p => .ok ({ x, y, p } : Position))
      (Coordinate.add (Position.x place') dx >>= fun x => Coordinate.add (Position.y place') dy >>=
        fun y => Coordinate.add (Position.p place') dp' >>= fun p => .ok ({ x, y, p } : Position)) _
    rw [x, y]
    apply Check.Carries.bind (.same _)
    rintro x _ rfl
    apply Check.Carries.bind (.same _)
    rintro y _ rfl
    apply Check.Carries.bind (word _ _ depth)
    intro p p' related
    exact .ok ⟨⟨rfl, rfl⟩, related⟩

theorem advance_level (room : sel.Room T) (scaled : Scaled sel planes a a')
    (h : Level sel a a' place place') (dx dy : Int) :
    (a.advance place dx dy 0).Carries T (a'.advance place' dx dy 0) (Level sel a a') := by
  have positive := sel.step_pos
  refine advance_carries room scaled h (.inr rfl) (by omega) (by omega) ?_
  rintro _ _ ⟨rfl, rfl⟩
  exact .ok ⟨rfl, rfl⟩

/-- From level places to a plane and its counterpart. -/
theorem advance_meets (room : sel.Room T) (scaled : Scaled sel planes a a')
    (h : Level sel a a' place place') (dx dy : Int) (hi : sel.Names planes i) :
    (a.advance place dx dy (Coordinate.ofExtent (sel.nth i))).Carries T
      (a'.advance place' dx dy (Coordinate.ofExtent i)) (Meets sel planes a a') := by
  have first := sel.first_lt
  by_cases one : sel.step = 1
  · rw [sel.nth_of_one one]
    apply advance_carries room scaled h (.inr (by rw [one]; omega)) (by omega) (by omega)
    rintro _ _ ⟨rfl, rfl⟩
    apply (Check.Carries.same _).mono
    rintro p _ - - rfl
    exact ⟨(sel.nth_of_one one _).symm, .inl one⟩
  obtain ⟨hi, word⟩ := hi.resolve_left one
  have shorter : i ≤ sel.nth i := by
    have := Nat.le_mul_of_pos_left i sel.step_pos
    unfold Selection.nth
    omega
  apply advance_carries room scaled h ?_ (by omega) (by omega)
  · rintro _ _ ⟨rfl, rfl⟩
    unfold Coordinate.add
    rw [Int.zero_add, Int.zero_add,
      Coordinate.checked_of_fits (Coordinate.ofExtent_fits word),
      Coordinate.checked_of_fits (Coordinate.ofExtent_fits (by omega))]
    apply Check.Carries.ok
    rw [Extent.ofCoordinate_ofExtent word, Extent.ofCoordinate_ofExtent (by omega)]
    exact ⟨rfl, .inr ⟨hi, word⟩⟩
  · cases a <;> cases a'
    · have reach := scaled.2.2.resolve_left one
      have inside := sel.nth_lt.2 hi
      rw [Coordinate.ofExtent_of_le (by omega), Coordinate.ofExtent_of_le (by omega)]
      exact .inr rfl
    · exact scaled.elim
    · exact scaled.elim
    · exact .inl rfl

end Moves

end Addressing

end ImageViews
