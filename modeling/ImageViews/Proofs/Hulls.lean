import ImageViews.Proofs.Convolving
import ImageViews.Proofs.Holding

/-!
# Smallest boxes

What a border needs of an extent for the pixels of a box: the box itself if it lies inside, the
common part if the outside is blank, and otherwise the columns and rows that the coordinates of the
box are mapped to. The smallest box that holds these pixels lies in the extent.
-/
namespace ImageViews

namespace Box

/-- The coordinates of the corners are coordinates. -/
structure Fits (b : Box) : Prop where
  left : Coordinate.Fits b.x
  top : Coordinate.Fits b.y
  right : Coordinate.Fits (b.x + b.width)
  bottom : Coordinate.Fits (b.y + b.height)

/-- The smallest box that has the pixels `S`. -/
structure IsHull (b : Box) (S : Int → Int → Prop) : Prop where
  covers : ∀ u v, S u v → b.Has u v
  least : ∀ b' : Box, (∀ u v, S u v → b'.Has u v) → b.Within b'

variable {b : Box} {S T : Int → Int → Prop}

theorem IsHull.congr (h : b.IsHull S) (same : ∀ u v, S u v ↔ T u v) : b.IsHull T where
  covers u v needed := h.covers u v ((same u v).2 needed)
  least b' covers := h.least b' fun u v needed => covers u v ((same u v).1 needed)

/-- A box whose corner pixels are in `S` is not larger than needed. -/
theorem isHull_of_corners (covers : ∀ u v, S u v → b.Has u v)
    (left : ∃ v, S b.x v) (right : ∃ v, S (b.x + b.width - 1) v) (top : ∃ u, S u b.y)
    (bottom : ∃ u, S u (b.y + b.height - 1)) : b.IsHull S where
  covers := covers
  least b' covers' := by
    obtain ⟨_, left⟩ := left
    obtain ⟨_, right⟩ := right
    obtain ⟨_, top⟩ := top
    obtain ⟨_, bottom⟩ := bottom
    have := covers' _ _ left
    have := covers' _ _ right
    have := covers' _ _ top
    have := covers' _ _ bottom
    unfold Has at *
    unfold Within
    omega

theorem isHull_self (nonempty : ¬b.IsEmpty) : b.IsHull b.Has := by
  unfold IsEmpty at nonempty
  refine isHull_of_corners (fun _ _ has => has) ⟨b.y, ?_⟩ ⟨b.y, ?_⟩ ⟨b.x, ?_⟩ ⟨b.x, ?_⟩
  all_goals
    unfold Has
    omega

end Box

/-- The pixels of the extent that a border reads for the pixels of a box. -/
def Border.Needs (border : Border) (cols rows : Nat) (box : Box) (u v : Int) : Prop :=
  ∃ x y, box.Has x y ∧ border.Reads .point cols rows x y u v

/-- The boxes that are asked for where the pixels `S` are needed: none if there are no such pixels,
and otherwise the smallest box that has them. -/
inductive Requests (S : Int → Int → Prop) (bounds : Box) : List Box → Prop
  | none (nothing : ∀ u v, ¬S u v) : Requests S bounds []
  | hull (r : Box) (something : ∃ u v, S u v) (hull : r.IsHull S) (nonempty : ¬r.IsEmpty)
    (within : r.Within bounds) : Requests S bounds [r]

namespace Tiler

variable {border : Border} {first : Int} {length len : Nat}

/-- The least and the greatest of some indices are among them, and belong to the axis. -/
theorem extremes_of_indexes {indices : Vector Nat length} (h : Indexes border first len indices)
    (hlength : 0 < length) (hlen : 0 < len) (hle : (len : Int) ≤ Coordinate.greatest) :
    ((∃ (i : Nat) (_ : i < length), (span indices.toList).1 = indices[i]) ∧
      ∃ (i : Nat) (_ : i < length), (span indices.toList).2 = indices[i]) ∧
      (span indices.toList).1 ≤ (span indices.toList).2 ∧ (span indices.toList).2 < len := by
  have bounds := (h.span hlength).2 0 hlength
  have member : indices[0] ∈ indices.toList := by simp
  obtain ⟨-, least, greatest⟩ := span_spec member
  obtain ⟨i, hi, least⟩ := Vector.mem_iff_getElem.1 (Vector.mem_toList_iff.1 least)
  obtain ⟨j, hj, greatest⟩ := Vector.mem_iff_getElem.1 (Vector.mem_toList_iff.1 greatest)
  have last := (Border.maps_of_index (h j hj) hlen hle).1
  exact ⟨⟨⟨i, hi, least.symm⟩, j, hj, greatest.symm⟩, by omega, by omega⟩

end Tiler

namespace Border

variable {border : Border} {cols rows : Nat} {box : Box} {u v : Int}

theorem needs_of_within (within : box.Within (.ofExtent cols rows)) :
    border.Needs cols rows box u v ↔ box.Has u v := by
  have inside {x y : Int} (has : box.Has x y) : Inside .point cols rows x y := by
    have := within.has has
    simp only [Box.Has, Box.ofExtent] at this
    simp only [Inside, Access.inside_point]
    omega
  constructor
  · rintro ⟨x, y, has, here | ⟨outside, _⟩⟩
    · exact has
    · exact absurd (inside has) outside
  · intro has
    exact ⟨u, v, has, .inside (inside has)⟩

theorem needs_of_blank (blank : border.Blank cols rows) :
    border.Needs cols rows box u v ↔ box.Has u v ∧ (Box.ofExtent cols rows).Has u v := by
  have extent {x y : Int} : Inside .point cols rows x y ↔ (Box.ofExtent cols rows).Has x y := by
    simp only [Inside, Access.inside_point, Box.Has, Box.ofExtent]
    omega
  constructor
  · rintro ⟨x, y, has, inside | ⟨_, shown, _⟩⟩
    · exact ⟨has, extent.1 inside⟩
    · exact absurd blank shown
  · rintro ⟨has, inside⟩
    exact ⟨u, v, has, .inside (extent.2 inside)⟩

/-- With indices for all columns and rows, their pixels are read. -/
theorem needs_of_indexes {xs : Vector Nat box.width} {ys : Vector Nat box.height}
    (shown : ¬border.Blank cols rows) (hcols : (cols : Int) ≤ Coordinate.greatest)
    (hrows : (rows : Int) ≤ Coordinate.greatest) (hxs : Tiler.Indexes border box.x cols xs)
    (hys : Tiler.Indexes border box.y rows ys) :
    border.Needs cols rows box u v ↔
      ∃ (i j : Nat) (hi : i < box.width) (hj : j < box.height), u = xs[i] ∧ v = ys[j] := by
  have pos : 0 < cols ∧ 0 < rows := by
    unfold Blank at shown
    omega
  have column {i : Nat} (hi : i < box.width) := maps_of_index (hxs i hi) pos.1 hcols
  have row {j : Nat} (hj : j < box.height) := maps_of_index (hys j hj) pos.2 hrows
  constructor
  · rintro ⟨x, y, ⟨hx, hy⟩, reads⟩
    obtain ⟨i, rfl⟩ := Int.le.dest hx.1
    obtain ⟨j, rfl⟩ := Int.le.dest hy.1
    have hi : i < box.width := by omega
    have hj : j < box.height := by omega
    refine ⟨i, j, hi, hj, ?_⟩
    cases reads with
    | inside inside =>
      simp only [Inside, Access.inside_point] at inside
      exact ⟨((column hi).2 inside.1 inside.2.2.1).symm,
        ((row hj).2 inside.2.1 inside.2.2.2).symm⟩
    | mapped _ _ hcolumn hrow =>
      obtain rfl := Except.ok.inj (hcolumn.symm.trans (hxs i hi))
      obtain rfl := Except.ok.inj (hrow.symm.trans (hys j hj))
      have := (column hi).1
      have := (row hj).1
      exact ⟨Coordinate.ofExtent_of_le (by omega), Coordinate.ofExtent_of_le (by omega)⟩
  · rintro ⟨i, j, hi, hj, rfl, rfl⟩
    refine ⟨box.x + i, box.y + j, box.has_add hi hj, ?_⟩
    have hcolumn := column hi
    have hrow := row hj
    by_cases inside : Inside .point cols rows (box.x + i) (box.y + j)
    · have here := inside
      simp only [Inside, Access.inside_point] at here
      rw [hcolumn.2 here.1 here.2.2.1, hrow.2 here.2.1 here.2.2.2]
      exact .inside inside
    · have reads := Reads.mapped inside shown (hxs i hi) (hys j hj)
      rwa [Coordinate.ofExtent_of_le (by have := hcolumn.1; omega),
        Coordinate.ofExtent_of_le (by have := hrow.1; omega)] at reads

/-- The box between the least and the greatest indices is the smallest one that has their pixels. -/
theorem requests_of_indexes {xs : Vector Nat box.width} {ys : Vector Nat box.height}
    (nonempty : ¬box.IsEmpty) (shown : ¬border.Blank cols rows)
    (hcols : (cols : Int) ≤ Coordinate.greatest) (hrows : (rows : Int) ≤ Coordinate.greatest)
    (hxs : Tiler.Indexes border box.x cols xs) (hys : Tiler.Indexes border box.y rows ys) :
    Requests (border.Needs cols rows box) (.ofExtent cols rows)
      [Tiler.between (Tiler.span xs.toList) (Tiler.span ys.toList)] := by
  have needs {u v : Int} := needs_of_indexes (u := u) (v := v) shown hcols hrows hxs hys
  unfold Box.IsEmpty at nonempty
  unfold Blank at shown
  obtain ⟨⟨⟨i, hi, left⟩, i', hi', right⟩, col_le, col_lt⟩ :=
    Tiler.extremes_of_indexes hxs (by omega) (by omega) hcols
  obtain ⟨⟨⟨j, hj, top⟩, j', hj', bottom⟩, row_le, row_lt⟩ :=
    Tiler.extremes_of_indexes hys (by omega) (by omega) hrows
  have column := (hxs.span (by omega)).2
  have row := (hys.span (by omega)).2
  generalize Tiler.span xs.toList = c at *
  generalize Tiler.span ys.toList = r at *
  refine .hull _ ⟨_, _, needs.2 ⟨i, j, hi, hj, rfl, rfl⟩⟩ ?_ ?_
    (Tiler.between_within ⟨col_le, col_lt⟩ ⟨row_le, row_lt⟩ hcols hrows)
  · rw [Tiler.between_of_le col_le row_le (by omega) (by omega)]
    refine Box.isHull_of_corners (fun u v needed => ?_) ⟨ys[j], ?_⟩ ⟨ys[j], ?_⟩ ⟨xs[i], ?_⟩
      ⟨xs[i], ?_⟩
    · obtain ⟨a, b, ha, hb, rfl, rfl⟩ := needs.1 needed
      have := column a ha
      have := row b hb
      unfold Box.Has
      simp only
      omega
    · exact needs.2 ⟨i, j, hi, hj, by simp only; omega, rfl⟩
    · exact needs.2 ⟨i', j, hi', hj, by simp only; omega, rfl⟩
    · exact needs.2 ⟨i, j, hi, hj, rfl, by simp only; omega⟩
    · exact needs.2 ⟨i, j', hi, hj', rfl, by simp only; omega⟩
  · exact Tiler.between_nonempty col_le row_le (by omega) (by omega)

theorem requests_of_within (nonempty : ¬box.IsEmpty) (within : box.Within (.ofExtent cols rows)) :
    Requests (border.Needs cols rows box) (.ofExtent cols rows) [box] := by
  have needs {u v : Int} : border.Needs cols rows box u v ↔ box.Has u v := needs_of_within within
  have corner : box.Has box.x box.y := by
    unfold Box.IsEmpty at nonempty
    unfold Box.Has
    omega
  exact .hull box ⟨_, _, needs.2 corner⟩ ((box.isHull_self nonempty).congr fun _ _ => needs.symm)
    nonempty within

/-- With a blank outside it is the common part of the box and the extent, if there is one. -/
theorem requests_of_overlap (blank : border.Blank cols rows)
    (hwidth : (box.width : Int) ≤ Coordinate.greatest)
    (hheight : (box.height : Int) ≤ Coordinate.greatest)
    (hcols : (cols : Int) ≤ Coordinate.greatest) (hrows : (rows : Int) ≤ Coordinate.greatest) :
    Requests (border.Needs cols rows box) (.ofExtent cols rows)
      (if (box.overlap (.ofExtent cols rows)).IsEmpty then []
        else [box.overlap (.ofExtent cols rows)]) := by
  have needs {u v : Int} : (box.overlap (.ofExtent cols rows)).Has u v ↔
      border.Needs cols rows box u v := by
    rw [needs_of_blank blank, Box.overlap_has hwidth hheight, Coordinate.ofExtent_of_le hcols,
      Coordinate.ofExtent_of_le hrows]
    simp only [Box.Has, Box.ofExtent]
    omega
  split
  next empty => exact .none fun u v needed => empty.not_has (needs.2 needed)
  next nonempty =>
    have corner : (box.overlap (.ofExtent cols rows)).Has (box.overlap (.ofExtent cols rows)).x
        (box.overlap (.ofExtent cols rows)).y := by
      unfold Box.IsEmpty at nonempty
      unfold Box.Has
      omega
    have within := Box.overlap_within nonempty
      (by rw [Box.right, Coordinate.ofExtent_of_le hwidth])
      (by rw [Box.bottom, Coordinate.ofExtent_of_le hheight])
      (by rw [Box.right, Box.ofExtent, Coordinate.ofExtent_of_le hcols])
      (by rw [Box.bottom, Box.ofExtent, Coordinate.ofExtent_of_le hrows])
    exact .hull _ ⟨_, _, needs.1 corner⟩ ((Box.isHull_self nonempty).congr fun _ _ => needs)
      nonempty within.2

end Border

end ImageViews
