import ImageViews.Proofs.Boxes

/-!
# Overlaps of boxes

The overlap of two boxes lies between the larger of their first corners and the smaller of their
last ones, and has the pixels that lie in both. Its extent is the difference of these corners, so it
can be computed as long as the gap between the boxes is a signed word.
-/
namespace ImageViews.Box

variable {a b c : Box} {x y : Int}

/-- The extents of the box and the corner behind its last pixel fit signed words. -/
structure Signed (b : Box) : Prop where
  width_le : (b.width : Int) ≤ Coordinate.greatest
  height_le : (b.height : Int) ≤ Coordinate.greatest
  right_fits : Coordinate.Fits (b.x + b.width)
  bottom_fits : Coordinate.Fits (b.y + b.height)

instance (b : Box) : Decidable b.Signed :=
  decidable_of_iff (((b.width : Int) ≤ Coordinate.greatest ∧
    (b.height : Int) ≤ Coordinate.greatest) ∧ Coordinate.Fits (b.x + b.width) ∧
    Coordinate.Fits (b.y + b.height))
    ⟨fun ⟨⟨width_le, height_le⟩, right_fits, bottom_fits⟩ =>
      { width_le, height_le, right_fits, bottom_fits },
    fun h => ⟨⟨h.width_le, h.height_le⟩, h.right_fits, h.bottom_fits⟩⟩

/-- The columns that the boxes share; if negative, the number of columns between them. -/
def columnSpan (a b : Box) : Int := min (a.x + a.width) (b.x + b.width) - max a.x b.x

/-- The rows that the boxes share; if negative, the number of rows between them. -/
def rowSpan (a b : Box) : Int := min (a.y + a.height) (b.y + b.height) - max a.y b.y

/-- Between the boxes lie more columns, or more rows, than signed words can count. -/
def Apart (a b : Box) : Prop :=
  a.columnSpan b < Coordinate.least ∨ a.rowSpan b < Coordinate.least

instance (a b : Box) : Decidable (a.Apart b) := inferInstanceAs (Decidable (_ ∨ _))

namespace Signed

theorem right_eq (h : b.Signed) : b.right = b.x + b.width := by
  rw [right, Coordinate.ofExtent_of_le h.width_le]

theorem bottom_eq (h : b.Signed) : b.bottom = b.y + b.height := by
  rw [bottom, Coordinate.ofExtent_of_le h.height_le]

theorem ends {E : Fault → Prop} (h : b.Signed) : b.Ends E := by
  rw [Ends, h.right_eq, h.bottom_eq]
  exact .inr ⟨h.right_fits, h.bottom_fits⟩

theorem contains_eq_ok (h : b.Signed) {contained : Bool} :
    b.contains x y = .ok contained ↔ (contained = true ↔ b.Has x y) := by
  rw [Box.contains_eq_ok, h.right_eq, h.bottom_eq]
  exact and_iff_right ⟨h.right_fits, h.bottom_fits⟩

theorem contains_iff (h : b.Signed) : b.contains x y = .ok true ↔ b.Has x y := by
  simp [h.contains_eq_ok]

theorem contains_returns (h : b.Signed) (x y : Int) :
    ∃ contained, b.contains x y = .ok contained ∧ (contained = true ↔ b.Has x y) := by
  by_cases inside : b.Has x y
  · exact ⟨true, h.contains_iff.2 inside, by simp [inside]⟩
  · exact ⟨false, h.contains_eq_ok.2 (by simp [inside]), by simp [inside]⟩

theorem containsBox_returns (ha : a.Signed) (hb : b.Signed) :
    ∃ contained, a.containsBox b = .ok contained ∧ (contained = true ↔ b.Within a) := by
  have compared := containsBox_yields ha.ends (hb.ends (E := Strict))
  obtain ⟨contained, returned⟩ := compared.tolerable.succeeds
  have decided := compared.value returned
  rw [ha.right_eq, ha.bottom_eq, hb.right_eq, hb.bottom_eq] at decided
  exact ⟨contained, returned, decided⟩

theorem overlap_eq (ha : a.Signed) (hb : b.Signed) : a.overlap b = {
    x := max a.x b.x
    y := max a.y b.y
    width := (a.columnSpan b).toNat
    height := (a.rowSpan b).toNat } := by
  rw [overlap, columnSpan, rowSpan, ha.right_eq, ha.bottom_eq, hb.right_eq, hb.bottom_eq]

theorem overlap_has (ha : a.Signed) (hb : b.Signed) :
    (a.overlap b).Has x y ↔ a.Has x y ∧ b.Has x y := by
  rw [ha.overlap_eq hb]
  simp only [Has, columnSpan, rowSpan]
  omega

theorem columnSpan_le (ha : a.Signed) : a.columnSpan b ≤ Coordinate.greatest := by
  have := ha.width_le
  unfold columnSpan
  omega

theorem rowSpan_le (ha : a.Signed) : a.rowSpan b ≤ Coordinate.greatest := by
  have := ha.height_le
  unfold rowSpan
  omega

theorem overlap_signed (ha : a.Signed) (hb : b.Signed) : (a.overlap b).Signed := by
  have columns := ha.columnSpan_le (b := b)
  have rows := ha.rowSpan_le (b := b)
  have none_left : 0 ≤ Coordinate.greatest := by decide
  have := ha.right_fits
  have := hb.right_fits
  have := ha.bottom_fits
  have := hb.bottom_fits
  rw [ha.overlap_eq hb]
  unfold Coordinate.Fits at *
  exact {
    width_le := by simp only; omega
    height_le := by simp only; omega
    right_fits := by simp only [Coordinate.Fits, columnSpan]; omega
    bottom_fits := by simp only [Coordinate.Fits, rowSpan]; omega }

end Signed

theorem overlap_comm (a b : Box) : a.overlap b = b.overlap a := by
  simp only [overlap, Int.min_comm a.right, Int.min_comm a.bottom, Int.max_comm a.x,
    Int.max_comm a.y]

theorem Apart.symm (h : a.Apart b) : b.Apart a := by
  unfold Apart columnSpan rowSpan at h ⊢
  omega

/-- Boxes with a gap between them share no pixel. -/
theorem Apart.not_both (apart : a.Apart b) : ¬(a.Has x y ∧ b.Has x y) := by
  have negative : Coordinate.least < 0 := by decide
  unfold Apart columnSpan rowSpan at apart
  unfold Has
  omega

/-- Each side of an overlap is a side of one of its operands. -/
theorem Apart.of_overlap (ha : a.Signed) (hb : b.Signed) (apart : (a.overlap b).Apart c) :
    a.Apart c ∨ b.Apart c := by
  rw [ha.overlap_eq hb] at apart
  have negative : Coordinate.least < 0 := by decide
  rcases apart with columns | rows
  · have : a.columnSpan c < Coordinate.least ∨ b.columnSpan c < Coordinate.least := by
      simp only [columnSpan] at columns ⊢
      omega
    exact this.imp .inl .inl
  · have : a.rowSpan c < Coordinate.least ∨ b.rowSpan c < Coordinate.least := by
      simp only [rowSpan] at rows ⊢
      omega
    exact this.imp .inr .inr

theorem intersect_of_near (ha : a.Signed) (hb : b.Signed) (near : ¬a.Apart b) :
    a.intersect b = .ok (if (a.overlap b).IsEmpty then none else some (a.overlap b)) := by
  refine (intersect_yields ha.ends hb.ends (.inr ?_)).eq_ok
  rw [ha.right_eq, ha.bottom_eq, hb.right_eq, hb.bottom_eq]
  obtain ⟨columns, rows⟩ := not_or.1 near
  exact ⟨⟨Int.not_lt.1 columns, ha.columnSpan_le⟩, Int.not_lt.1 rows, ha.rowSpan_le⟩

theorem ofCorners_of_not_fits {low high : Int × Int}
    (far : ¬(Coordinate.Fits (high.1 - low.1) ∧ Coordinate.Fits (high.2 - low.2))) :
    ofCorners low high = .error .overflow := by
  unfold ofCorners Coordinate.sub Coordinate.checked
  by_cases width : Coordinate.Fits (high.1 - low.1)
  · rw [if_pos width, Check.ok_bind, if_neg fun height => far ⟨width, height⟩, Check.error_bind]
  · rw [if_neg width, Check.error_bind]

/-- The difference of the corners is formed before inverted corners are noticed. -/
theorem intersect_of_apart (ha : a.Signed) (hb : b.Signed) (apart : a.Apart b) :
    a.intersect b = .error .overflow := by
  have high : a.high = .ok (a.right, a.bottom) := (high_yields ha.ends).eq_ok
  have high' : b.high = .ok (b.right, b.bottom) := (high_yields hb.ends).eq_ok
  unfold intersect
  rw [high, high', Check.ok_bind, Check.ok_bind, ofCorners_of_not_fits, Check.error_bind]
  rw [ha.right_eq, ha.bottom_eq, hb.right_eq, hb.bottom_eq]
  rintro ⟨⟨columns, -⟩, rows, -⟩
  exact apart.elim (Int.not_lt.2 columns) (Int.not_lt.2 rows)

theorem intersect_comm (ha : a.Signed) (hb : b.Signed) : a.intersect b = b.intersect a := by
  by_cases apart : a.Apart b
  · rw [intersect_of_apart ha hb apart, intersect_of_apart hb ha apart.symm]
  · rw [intersect_of_near ha hb apart, intersect_of_near hb ha fun h => apart h.symm,
      overlap_comm]

theorem has_first (nonempty : ¬a.IsEmpty) : a.Has a.x a.y := by
  unfold IsEmpty at nonempty
  unfold Has
  omega

theorem has_last (nonempty : ¬a.IsEmpty) : a.Has (a.x + a.width - 1) (a.y + a.height - 1) := by
  unfold IsEmpty at nonempty
  unfold Has
  omega

/-- A box with pixels lies in another one if all its pixels do: its first and its last one are in
its corners. -/
theorem within_iff_has (nonempty : ¬b.IsEmpty) : b.Within a ↔ ∀ x y, b.Has x y → a.Has x y := by
  constructor
  · intro within x y
    exact within.has
  · intro all
    have first := all _ _ (has_first nonempty)
    have last := all _ _ (has_last nonempty)
    unfold Has at first last
    unfold Within
    omega

/-- A box with pixels is determined by them. -/
theorem eq_of_has (nonempty : ¬a.IsEmpty) (same : ∀ x y, a.Has x y ↔ b.Has x y) : a = b := by
  have nonempty' : ¬b.IsEmpty := fun empty => empty.not_has ((same _ _).1 (has_first nonempty))
  have within : a.Within b := (within_iff_has nonempty).2 fun x y => (same x y).1
  have within' : b.Within a := (within_iff_has nonempty').2 fun x y => (same x y).2
  unfold Within at within within'
  obtain ⟨left, top, width, height⟩ := a
  obtain ⟨left', top', width', height'⟩ := b
  simp only [mk.injEq] at within within' ⊢
  omega

/-- The pixels of a box that may be missing. -/
def Shown : Option Box → Int → Int → Prop
  | none, _, _ => False
  | some c, x, y => c.Has x y

/-- The pixels `P` are shown by a box, or by none if there are no such pixels. -/
structure Shows (P : Int → Int → Prop) (r : Option Box) : Prop where
  signed : ∀ c, r = some c → c.Signed
  nonempty : ∀ c, r = some c → ¬c.IsEmpty
  shown : ∀ x y, Shown r x y ↔ P x y

/-- The common pixels of two boxes, each of which may be missing. -/
def common : Option Box → Option Box → Check (Option Box)
  | some a, some b => a.intersect b
  | none, _ => .ok none
  | _, none => .ok none

namespace Shows

variable {P Q : Int → Int → Prop} {r s t : Option Box}

theorem of_iff (hr : Shows P r) (same : ∀ x y, P x y ↔ Q x y) : Shows Q r :=
  ⟨hr.signed, hr.nonempty, fun x y => (hr.shown x y).trans (same x y)⟩

theorem unique (hr : Shows P r) (hs : Shows P s) : r = s := by
  have same : ∀ x y, Shown r x y ↔ Shown s x y := fun x y =>
    (hr.shown x y).trans (hs.shown x y).symm
  match r, s with
  | none, none => rfl
  | none, some c => exact ((same _ _).2 (has_first (hs.nonempty c rfl))).elim
  | some c, none => exact ((same _ _).1 (has_first (hr.nonempty c rfl))).elim
  | some c, some d => rw [eq_of_has (hr.nonempty c rfl) same]

theorem isSome_iff (hr : Shows P r) : r.isSome = true ↔ ∃ x y, P x y := by
  match r with
  | none => simpa [Shown] using fun x y => hr.shown x y
  | some c => simpa using ⟨c.x, c.y, (hr.shown _ _).1 (has_first (hr.nonempty c rfl))⟩

/-- Boxes that are apart share no pixel, and all others have an overlap. -/
theorem intersect (ha : a.Signed) (hb : b.Signed) (returned : a.intersect b = .ok r) :
    Shows (fun x y => a.Has x y ∧ b.Has x y) r := by
  have near : ¬a.Apart b := by
    intro apart
    rw [intersect_of_apart ha hb apart] at returned
    cases returned
  rw [intersect_of_near ha hb near, Except.ok.injEq] at returned
  subst returned
  have shares : ∀ x y, (a.overlap b).Has x y ↔ a.Has x y ∧ b.Has x y := fun x y =>
    ha.overlap_has hb
  split
  next empty =>
    exact ⟨nofun, nofun, fun x y => ⟨False.elim, fun both => empty.not_has ((shares x y).2 both)⟩⟩
  next nonempty =>
    refine ⟨?_, ?_, shares⟩
    · rintro _ ⟨⟩
      exact ha.overlap_signed hb
    · rintro _ ⟨⟩
      exact nonempty

theorem common (hr : ∀ c, r = some c → c.Signed) (hs : ∀ c, s = some c → c.Signed)
    (returned : common r s = .ok t) : Shows (fun x y => Shown r x y ∧ Shown s x y) t := by
  match r, s, hr, hs, returned with
  | none, _, _, _, returned =>
    cases returned
    exact ⟨nofun, nofun, fun x y => ⟨False.elim, And.left⟩⟩
  | some _, none, _, _, returned =>
    cases returned
    exact ⟨nofun, nofun, fun x y => ⟨False.elim, And.right⟩⟩
  | some a, some b, ha, hb, returned => exact intersect (ha a rfl) (hb b rfl) returned

end Shows

section Three

variable {r : Option Box}

/-- The pixels of three boxes, beginning with the first two of them. -/
theorem common_left_shows (ha : a.Signed) (hb : b.Signed) (hc : c.Signed)
    (returned : (a.intersect b >>= (common · (some c))) = .ok r) :
    Shows (fun x y => (a.Has x y ∧ b.Has x y) ∧ c.Has x y) r := by
  obtain ⟨ab, first, second⟩ := Check.bind_eq_ok.1 returned
  have shared := Shows.intersect ha hb first
  exact (Shows.common shared.signed (by rintro _ ⟨⟩; exact hc) second).of_iff fun x y =>
    and_congr_left' (shared.shown x y)

/-- The pixels of three boxes, beginning with the last two of them. -/
theorem common_right_shows (ha : a.Signed) (hb : b.Signed) (hc : c.Signed)
    (returned : (b.intersect c >>= common (some a)) = .ok r) :
    Shows (fun x y => (a.Has x y ∧ b.Has x y) ∧ c.Has x y) r := by
  obtain ⟨bc, first, second⟩ := Check.bind_eq_ok.1 returned
  have shared := Shows.intersect hb hc first
  refine (Shows.common (by rintro _ ⟨⟩; exact ha) shared.signed second).of_iff fun x y => ?_
  rw [and_assoc]
  exact and_congr_right' (shared.shown x y)

/-- The overlap of two boxes is not apart from a third box that neither of them is apart from. -/
theorem common_returns (ha : a.Signed) (hb : b.Signed) (hc : c.Signed) (near : ¬a.Apart b)
    (near' : ¬b.Apart c) (near'' : ¬a.Apart c) :
    (∃ r, (a.intersect b >>= (common · (some c))) = .ok r) ∧
      ∃ r, (b.intersect c >>= common (some a)) = .ok r := by
  rw [intersect_of_near ha hb near, intersect_of_near hb hc near', Check.ok_bind, Check.ok_bind]
  constructor
  · split
    · exact ⟨none, rfl⟩
    · exact ⟨_, intersect_of_near (ha.overlap_signed hb) hc fun apart =>
        (apart.of_overlap ha hb).elim near'' near'⟩
  · split
    · exact ⟨none, rfl⟩
    · exact ⟨_, intersect_of_near ha (hb.overlap_signed hc) fun apart =>
        (apart.symm.of_overlap hb hc).elim (fun h => near h.symm) fun h => near'' h.symm⟩

end Three

/-- The intersection of two boxes is a box with exactly the pixels of both, or none if they share
no pixel, unless the gap between the boxes is more than signed words can count: then its size is
not computed. Intersecting is commutative, and associative as far as it returns; it returns for
three boxes no two of which are apart. -/
theorem intersect_shares_pixels (ha : a.Signed) (hb : b.Signed) (hc : c.Signed) :
    (a.Apart b → a.intersect b = .error .overflow ∧
      ∀ x y, ¬(a.contains x y = .ok true ∧ b.contains x y = .ok true)) ∧
    (¬a.Apart b → ∃ r, a.intersect b = .ok r ∧
      (r.isSome = true ↔ ∃ x y, a.contains x y = .ok true ∧ b.contains x y = .ok true) ∧
      ∀ box, r = some box → ∀ x y, box.contains x y = .ok true ↔
        a.contains x y = .ok true ∧ b.contains x y = .ok true) ∧
    a.intersect b = b.intersect a ∧
    (∀ r s, (a.intersect b >>= (common · (some c))) = .ok r →
      (b.intersect c >>= common (some a)) = .ok s → r = s) ∧
    (¬a.Apart b → ¬b.Apart c → ¬a.Apart c →
      (a.intersect b >>= (common · (some c))) = b.intersect c >>= common (some a) ∧
        ∃ r, (a.intersect b >>= (common · (some c))) = .ok r) := by
  have assoc : ∀ r s, (a.intersect b >>= (common · (some c))) = .ok r →
      (b.intersect c >>= common (some a)) = .ok s → r = s := fun r s left right =>
    (common_left_shows ha hb hc left).unique (common_right_shows ha hb hc right)
  simp only [ha.contains_iff, hb.contains_iff]
  refine ⟨fun apart => ⟨intersect_of_apart ha hb apart, fun x y => apart.not_both⟩, ?_,
    intersect_comm ha hb, assoc, ?_⟩
  · intro near
    obtain ⟨r, returned⟩ : ∃ r, a.intersect b = .ok r := ⟨_, intersect_of_near ha hb near⟩
    have shared := Shows.intersect ha hb returned
    refine ⟨r, returned, shared.isSome_iff, ?_⟩
    rintro box rfl x y
    rw [(shared.signed box rfl).contains_iff]
    exact shared.shown x y
  · intro near near' near''
    obtain ⟨⟨r, left⟩, s, right⟩ := common_returns ha hb hc near near' near''
    rw [left, right, assoc r s left right]
    exact ⟨rfl, s, rfl⟩

section Examples

/-- A pixel at the left end of the coordinates. -/
def leftmost : Box := { x := Coordinate.least, width := 1, height := 1 }

/-- A pixel at the right end of the coordinates. -/
def rightmost : Box := { x := Coordinate.greatest - 1, width := 1, height := 1 }

/-- Some pixels at the left end of the coordinates. -/
def stripe : Box := { x := Coordinate.least, width := 8, height := 1 }

theorem leftmost_shares_stripe :
    (leftmost.Signed ∧ stripe.Signed ∧ rightmost.Signed) ∧
      (leftmost.intersect stripe = .ok (some leftmost) ∧ ∀ x y,
        leftmost.contains x y = .ok true ↔
          leftmost.contains x y = .ok true ∧ stripe.contains x y = .ok true) ∧
      leftmost.intersect stripe = stripe.intersect leftmost := by
  have left : leftmost.Signed := by decide
  have ⟨_, near, comm, _⟩ := intersect_shares_pixels (b := stripe) (c := rightmost) left
    (by decide) (by decide)
  obtain ⟨r, returned, _, shared⟩ := near (by decide)
  have same : r = some leftmost := Except.ok.inj (returned.symm.trans rfl)
  rw [same] at returned
  exact ⟨⟨left, by decide, by decide⟩, ⟨returned, shared leftmost same⟩, comm⟩

/-- The two ends of the coordinates share no pixel, but their distance is not a coordinate. -/
theorem leftmost_rightmost_overflows :
    (leftmost.Signed ∧ rightmost.Signed) ∧
      (∀ x y, ¬(leftmost.contains x y = .ok true ∧ rightmost.contains x y = .ok true)) ∧
      leftmost.intersect rightmost = .error .overflow := by
  have left : leftmost.Signed := by decide
  have right : rightmost.Signed := by decide
  have apart : leftmost.Apart rightmost := by decide
  refine ⟨⟨left, right⟩, fun x y => ?_, intersect_of_apart left right apart⟩
  rw [left.contains_iff, right.contains_iff]
  exact apart.not_both

end Examples

end ImageViews.Box
