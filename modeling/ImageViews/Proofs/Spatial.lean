import ImageViews.Image.Strided
import ImageViews.Proofs.Rendering

/-!
# Spatial faults

Words, boxes, cursors and buffers fault in one way only: something does not fit into the space that
it is given. What they compute has nothing to do with the values of pixels, and the extents of the
grids that a pass reads are not compared by them.
-/
namespace ImageViews

variable {α β : Type} {n : Nat}

/-- The faults of coordinates, cells and buffers. -/
def Fault.Spatial : Fault → Prop
  | pixelOverflow | passShape => False
  | overflow | outOfBounds | zeroPeriod | emptyRange | windowOutside | shortBuffer
  | capacity => True

/-- The check has spatial faults only. -/
def Check.Spatial (check : Check α) : Prop := check.Tolerable Fault.Spatial

namespace Check.Spatial

variable {check : Check α} {f : α → Check β} {fault : Fault}

theorem ok (a : α) : Check.Spatial (.ok a) := Check.Tolerable.ok a

theorem error (h : fault.Spatial) : Check.Spatial (.error fault : Check α) := by
  rintro _ ⟨⟩
  exact h

theorem bind (h : check.Spatial) (hf : ∀ a, (f a).Spatial) : (check >>= f).Spatial :=
  Check.Tolerable.bind h fun a _ => hf a

theorem require {condition : Prop} [Decidable condition] (h : fault.Spatial) :
    (Check.require condition fault).Spatial := by
  unfold Check.require
  split
  · exact ok ()
  · exact error h

end Check.Spatial

section Words

namespace Coordinate

theorem checked_spatial (i : Int) : (checked i).Spatial := by
  unfold checked
  split
  · exact .ok i
  · exact .error trivial

theorem add_spatial (a b : Int) : (add a b).Spatial := checked_spatial _
theorem sub_spatial (a b : Int) : (sub a b).Spatial := checked_spatial _
theorem mul_spatial (a b : Int) : (mul a b).Spatial := checked_spatial _

end Coordinate

namespace Extent

theorem checked_spatial (m : Nat) : (checked m).Spatial := by
  unfold checked
  split
  · exact .ok m
  · exact .error trivial

theorem add_spatial (a b : Nat) : (add a b).Spatial := checked_spatial _
theorem mul_spatial (a b : Nat) : (mul a b).Spatial := checked_spatial _

theorem sub_spatial (a b : Nat) : (sub a b).Spatial := by
  unfold sub
  split
  · exact .ok _
  · exact .error trivial

end Extent

theorem reserve_spatial (bytes m : Nat) : (reserve bytes m).Spatial := .require trivial

theorem fetchCell_spatial (cells : Array α) (i : Nat) : (fetchCell cells i).Spatial := by
  unfold fetchCell
  split
  · exact .ok _
  · exact .error trivial

theorem tabulate_spatial {f : Nat → Check α} (h : ∀ i, (f i).Spatial) (m : Nat) :
    (tabulate f m).Spatial :=
  (tabulate_yields fun i _ => h i).tolerable

end Words

section Boxes

namespace Box

theorem high_spatial (b : Box) : b.high.Spatial :=
  .bind (Coordinate.add_spatial _ _) fun _ => .bind (Coordinate.add_spatial _ _) fun _ => .ok _

theorem containsBox_spatial (b other : Box) : (b.containsBox other).Spatial :=
  .bind b.high_spatial fun _ => .bind other.high_spatial fun _ => .ok _

theorem translate_spatial (b : Box) (dx dy : Int) : (b.translate dx dy).Spatial :=
  .bind (Coordinate.add_spatial _ _) fun _ => .bind (Coordinate.add_spatial _ _) fun _ => .ok _

theorem ofCorners_spatial (low high : Int × Int) : (ofCorners low high).Spatial :=
  .bind (Coordinate.sub_spatial _ _) fun _ => .bind (Coordinate.sub_spatial _ _) fun _ => .ok _

theorem intersect_spatial (b other : Box) : (b.intersect other).Spatial :=
  .bind b.high_spatial fun _ => .bind other.high_spatial fun _ =>
    .bind (ofCorners_spatial _ _) fun _ => .ok _

theorem grow_spatial (b : Box) (left top right bottom : Nat) :
    (b.grow left top right bottom).Spatial :=
  .bind (Coordinate.sub_spatial _ _) fun _ => .bind (Coordinate.sub_spatial _ _) fun _ =>
    .bind (Extent.add_spatial _ _) fun _ => .bind (Extent.add_spatial _ _) fun _ =>
    .bind (Extent.add_spatial _ _) fun _ => .bind (Extent.add_spatial _ _) fun _ => .ok _

end Box

namespace Border

theorem remainder_spatial (i period : Int) : (remainder i period).Spatial :=
  .bind (.require trivial) fun _ => .bind (.require trivial) fun _ => .ok _

theorem index_spatial (border : Border) (i : Int) (len : Nat) : (border.index i len).Spatial := by
  cases border with
  | zero | replicate =>
    exact .bind (Coordinate.sub_spatial _ _) fun _ => .bind (.require trivial) fun _ => .ok _
  | wrap => exact .bind (remainder_spatial _ _) fun _ => .ok _
  | reflect =>
    change (reflectIndex i len).Spatial
    unfold reflectIndex
    split
    · exact .ok 0
    refine .bind (Coordinate.mul_spatial _ _) fun _ => .bind (remainder_spatial _ _) fun _ => ?_
    split
    · exact .ok _
    · exact .bind (Coordinate.sub_spatial _ _) fun _ =>
        .bind (Coordinate.sub_spatial _ _) fun _ => .ok _
  | reflect101 =>
    change (reflect101Index i len).Spatial
    unfold reflect101Index
    split
    · exact .ok 0
    refine .bind (Coordinate.mul_spatial _ _) fun _ => .bind (Coordinate.sub_spatial _ _) fun _ =>
      .bind (remainder_spatial _ _) fun _ => ?_
    split
    · exact .ok _
    · exact .bind (Coordinate.sub_spatial _ _) fun _ => .ok _

end Border

end Boxes

namespace Handle

variable (handle : Handle n)

theorem offset_spatial (x y p : Nat) : (handle.offset x y p).Spatial :=
  .bind (Coordinate.mul_spatial _ _) fun _ => .bind (Coordinate.mul_spatial _ _) fun _ =>
    .bind (Coordinate.add_spatial _ _) fun _ => Extent.add_spatial _ _

theorem cell_spatial (x y p : Nat) : (handle.cell x y p).Spatial := by
  apply Check.Spatial.bind (handle.offset_spatial x y p)
  intro offset
  split
  · exact .ok _
  · exact .error trivial

theorem window_spatial (x y cols rows : Nat) : (handle.window x y cols rows).Spatial := by
  have cut (offset : Nat) : (if h : handle.start + offset ≤ n then
      .ok { handle with start := handle.start + offset, cols, rows, start_le := h }
      else .error .outOfBounds : Check (Handle n)).Spatial := by
    split
    · exact .ok _
    · exact .error trivial
  refine .bind (Extent.add_spatial _ _) fun _ => .bind (.require trivial) fun _ =>
    .bind (Extent.add_spatial _ _) fun _ => .bind (.require trivial) fun _ => ?_
  split
  · exact .bind (.ok 0) cut
  · exact .bind (handle.offset_spatial x y 0) cut

theorem whole_spatial (m cols rows planes : Nat) : (whole m cols rows planes).Spatial :=
  .bind (.bind (Extent.mul_spatial _ _) fun _ => Extent.mul_spatial _ _) fun _ =>
    .bind (.require trivial) fun _ => .bind (Extent.mul_spatial _ _) fun _ => .ok _

end Handle

namespace Addressing

variable (a : Addressing)

theorem nextCol_spatial (place : a.Place) : (a.nextCol place).Spatial := by
  cases a with
  | strides col row plane => exact Coordinate.add_spatial _ _
  | coordinates => exact .bind (Coordinate.add_spatial _ _) fun _ => .ok _

theorem nextRow_spatial (place : a.Place) : (a.nextRow place).Spatial := by
  cases a with
  | strides col row plane => exact Coordinate.add_spatial _ _
  | coordinates => exact .bind (Coordinate.add_spatial _ _) fun _ => .ok _

theorem nextPlane_spatial (place : a.Place) : (a.nextPlane place).Spatial := by
  cases a with
  | strides col row plane => exact Coordinate.add_spatial _ _
  | coordinates => exact .bind (Coordinate.add_spatial _ _) fun _ => .ok _

theorem advance_spatial (place : a.Place) (dx dy dp : Int) :
    (a.advance place dx dy dp).Spatial := by
  cases a with
  | strides col row plane =>
    exact .bind (Coordinate.mul_spatial _ _) fun _ => .bind (Coordinate.mul_spatial _ _) fun _ =>
      .bind (Coordinate.add_spatial _ _) fun _ => .bind (Coordinate.mul_spatial _ _) fun _ =>
      .bind (Coordinate.add_spatial _ _) fun _ => Coordinate.add_spatial _ _
  | coordinates =>
    exact .bind (Coordinate.add_spatial _ _) fun _ => .bind (Coordinate.add_spatial _ _) fun _ =>
      .bind (Coordinate.add_spatial _ _) fun _ => .ok _

end Addressing

namespace Image

theorem allocate_spatial (bytes cols rows planes : Nat) :
    (allocate bytes cols rows planes).Spatial :=
  .bind (.bind (Extent.mul_spatial _ _) fun _ => Extent.mul_spatial _ _) fun _ =>
    reserve_spatial _ _

theorem strided_spatial (image : Image α) : image.strided.Spatial :=
  .bind (.bind (Extent.mul_spatial _ _) fun _ => Extent.mul_spatial _ _) fun _ =>
    .bind (.require trivial) fun _ => .bind (Extent.mul_spatial _ _) fun _ => .ok _

end Image

end ImageViews
