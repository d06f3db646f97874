import ImageViews.Proofs.Holding

/-!
# Moderate evaluations

An evaluation of a box asks the parts of a view for boxes in turn: moved by crops, grown by kernels,
or cut from the extent of a child that is read through a border. It is moderate when all of these
boxes are, and when the cursors that follow chains of crops down to stored pixels have room to
spare. A moderate evaluation of arithmetic that does not fault meets no fault at all.
-/
namespace ImageViews

/-- No product of these kinds faults, and no sum of such products. -/
structure Arithmetic.Total (A : Arithmetic) {p : A.Pixel} {k : A.Coeff} {q : A.Pixel}
    (h : A.product p k = some q) : Prop where
  scale : ∀ (value : A.Value p) (factor : A.Factor k), ∃ product,
    A.scale h value factor = .ok product
  add : ∀ a b : A.Value q, ∃ sum, A.add a b = .ok sum

namespace View

variable {A : Arithmetic} {p : A.Pixel} {E : Fault → Prop}

/-- No product or sum of the filters faults. -/
def Calm : {p : A.Pixel} → View A p → Prop
  | _, image .. | _, strided _ => True
  | _, crop child .. | _, extend child _ => child.Calm
  | _, convolve child h .. | _, separable child h .. => child.Calm ∧ A.Total h

/-- The steps of the cursors over the view. -/
def steps (v : View A p) : Nat × Nat := v.sampler.addressing.steps

/-- The coordinates have room to spare as numbers of steps, and so have the coordinates of the same
pixel, and of the corner, in the views that the view is cropped from. -/
def Reaches (steps : Nat × Nat) : {p : A.Pixel} → View A p → Int → Int → Prop
  | _, crop child x0 y0 _ _, x, y =>
    (Near steps.1 x ∧ Near steps.2 y) ∧ child.Reaches steps (x + x0) (y + y0) ∧
      child.Reaches steps x0 y0
  | _, _, x, y => Near steps.1 x ∧ Near steps.2 y

/-- Whether a pixel is within reach can be computed. -/
def decideReaches (steps : Nat × Nat) : {p : A.Pixel} → (v : View A p) → (x y : Int) →
    Decidable (v.Reaches steps x y)
  | _, crop child x0 y0 _ _, x, y =>
    have := child.decideReaches steps (x + x0) (y + y0)
    have := child.decideReaches steps x0 y0
    inferInstanceAs (Decidable (_ ∧ _ ∧ _))
  | _, image .., _, _ | _, strided _, _, _ | _, extend .., _, _ | _, convolve .., _, _
  | _, separable .., _, _ => inferInstanceAs (Decidable (_ ∧ _))

instance (steps : Nat × Nat) (v : View A p) (x y : Int) : Decidable (v.Reaches steps x y) :=
  v.decideReaches steps x y

/-- The corners of the box are within reach, and the box is moderate itself. -/
structure Clear (v : View A p) (box : Box) : Prop where
  moderate : box.Moderate (A.storage p).bytes v.planes
  low : v.Reaches v.steps box.x box.y
  high : v.Reaches v.steps (box.x + box.width) (box.y + box.height)
  buffer_low : v.Reaches (v.planes, box.width * v.planes) box.x box.y
  buffer_high : v.Reaches (v.planes, box.width * v.planes) (box.x + box.width)
    (box.y + box.height)

instance (v : View A p) (box : Box) : Decidable (v.Clear box) :=
  decidable_of_iff (box.Moderate (A.storage p).bytes v.planes ∧ v.Reaches v.steps box.x box.y ∧
    v.Reaches v.steps (box.x + box.width) (box.y + box.height) ∧
    v.Reaches (v.planes, box.width * v.planes) box.x box.y ∧
    v.Reaches (v.planes, box.width * v.planes) (box.x + box.width) (box.y + box.height))
    ⟨fun ⟨moderate, low, high, buffer_low, buffer_high⟩ =>
      ⟨moderate, low, high, buffer_low, buffer_high⟩,
    fun h => ⟨h.moderate, h.low, h.high, h.buffer_low, h.buffer_high⟩⟩

/-- All boxes that an evaluation of the box asks for are moderate and within reach. There is no
such bound for separable filters. -/
def Moderate : {p : A.Pixel} → View A p → Box → Prop
  | p, image pixels provenance, box =>
    (image pixels provenance).Clear box ∧
      Storable (A.storage p).bytes pixels.cols pixels.rows pixels.planes
  | _, strided grid, box => (strided grid).Clear box
  | _, crop child x0 y0 cols rows, box =>
    (child.crop x0 y0 cols rows).Clear box ∧
      child.Moderate { box with x := box.x + x0, y := box.y + y0 }
  | _, extend child border, box => (child.extend border).Clear box ∧ child.Moderate child.bounds
  | _, convolve child h kernel anchor none, box =>
    (child.convolve h kernel anchor none).Clear box ∧ child.Moderate (box.windows anchor) ∧
      child.cols ≤ quarter ∧ child.rows ≤ quarter
  | _, convolve (p := p) child h kernel anchor (some border), box =>
    (child.convolve h kernel anchor (some border)).Clear box ∧ child.Moderate child.bounds ∧
      (box.windows anchor).Moderate (A.storage p).bytes child.planes
  | _, separable .., _ => False

/-- Whether an evaluation is moderate can be computed. -/
def decideModerate : {p : A.Pixel} → (v : View A p) → (box : Box) → Decidable (v.Moderate box)
  | _, image .., _ => inferInstanceAs (Decidable (_ ∧ _))
  | _, strided grid, box => inferInstanceAs (Decidable ((strided grid).Clear box))
  | _, crop child x0 y0 _ _, box =>
    have := child.decideModerate { box with x := box.x + x0, y := box.y + y0 }
    inferInstanceAs (Decidable (_ ∧ _))
  | _, extend child _, _ =>
    have := child.decideModerate child.bounds
    inferInstanceAs (Decidable (_ ∧ _))
  | _, convolve child _ _ anchor none, box =>
    have := child.decideModerate (box.windows anchor)
    inferInstanceAs (Decidable (_ ∧ _ ∧ _ ∧ _))
  | _, convolve child _ _ _ (some _), _ =>
    have := child.decideModerate child.bounds
    inferInstanceAs (Decidable (_ ∧ _ ∧ _))
  | _, separable .., _ => inferInstanceAs (Decidable False)

instance (v : View A p) (box : Box) : Decidable (v.Moderate box) := v.decideModerate box

theorem Moderate.clear {v : View A p} {box : Box} (h : v.Moderate box) : v.Clear box := by
  cases v with
  | image | crop | extend => exact h.1
  | strided => exact h
  | separable => exact h.elim
  | convolve _ _ _ _ border =>
    cases border with
    | none | some => exact h.1

namespace Reaches

variable {v : View A p} {steps steps' : Nat × Nat} {x y : Int}

theorem near (h : v.Reaches steps x y) : Near steps.1 x ∧ Near steps.2 y := by
  cases v with
  | crop => exact h.1
  | image | strided | extend | convolve | separable => exact h

/-- What lies between two coordinates within reach is within reach. -/
theorem between {a b c d : Int} (low : v.Reaches steps a b) (high : v.Reaches steps c d)
    (hx : a ≤ x ∧ x ≤ c) (hy : b ≤ y ∧ y ≤ d) : v.Reaches steps x y := by
  induction v generalizing a b c d x y with
  | crop child x0 y0 cols rows ih =>
    exact ⟨⟨low.1.1.between high.1.1 hx.1 hx.2, low.1.2.between high.1.2 hy.1 hy.2⟩,
      ih low.2.1 high.2.1 (by omega) (by omega), low.2.2⟩
  | image | strided | extend | convolve | separable =>
    exact ⟨low.1.between high.1 hx.1 hx.2, low.2.between high.2 hy.1 hy.2⟩

theorem mono (h : v.Reaches steps x y) (hx : steps'.1 ≤ steps.1) (hy : steps'.2 ≤ steps.2) :
    v.Reaches steps' x y := by
  induction v generalizing x y with
  | crop child x0 y0 cols rows ih =>
    exact ⟨⟨h.1.1.mono hx, h.1.2.mono hy⟩, ih h.2.1, ih h.2.2⟩
  | image | strided | extend | convolve | separable => exact ⟨h.1.mono hx, h.2.mono hy⟩

end Reaches

theorem Clear.within {v : View A p} {box box' : Box} (h : v.Clear box') (within : box.Within box') :
    v.Clear box := by
  obtain ⟨hx, hy⟩ := within
  have width : box.width * v.planes ≤ box'.width * v.planes :=
    Nat.mul_le_mul_right _ (by omega)
  exact {
    moderate := h.moderate.within ⟨hx, hy⟩
    low := h.low.between h.high (by omega) (by omega)
    high := h.low.between h.high (by omega) (by omega)
    buffer_low := (h.buffer_low.between h.buffer_high (by omega) (by omega)).mono
      (Nat.le_refl _) width
    buffer_high := (h.buffer_low.between h.buffer_high (by omega) (by omega)).mono
      (Nat.le_refl _) width }

/-- The evaluation of a part of a box is moderate if that of the box is. -/
theorem Moderate.within {v : View A p} {box box' : Box} (h : v.Moderate box')
    (within : box.Within box') : v.Moderate box := by
  induction v generalizing box box' with
  | image => exact ⟨h.1.within within, h.2⟩
  | strided => exact Clear.within h within
  | crop child x0 y0 cols rows ih =>
    refine ⟨h.1.within within, ih h.2 ?_⟩
    unfold Box.Within at within ⊢
    simp only
    omega
  | extend => exact ⟨h.1.within within, h.2⟩
  | separable => exact h.elim
  | convolve child _ kernel anchor border ih =>
    have windows : (box.windows anchor).Within (box'.windows anchor) :=
      within.windows kernel.cols_pos kernel.rows_pos
    cases border with
    | none => exact ⟨h.1.within within, ih h.2.1 windows, h.2.2⟩
    | some border => exact ⟨h.1.within within, h.2.1, h.2.2.within windows⟩

theorem planar (v : View A p) : v.sampler.addressing.Planar := by
  induction v with
  | image | strided => rfl
  | crop child _ _ _ _ ih => exact ih
  | extend | convolve | separable => trivial

/-- A cursor can be placed at every pixel within reach. -/
theorem Reaches.admits {v : View A p} (sound : v.Sound) {box : Box} (moderate : v.Moderate box)
    {x y plane : Int} (reach : v.Reaches v.steps x y) (hp : -quarter ≤ plane ∧ plane ≤ quarter) :
    v.sampler.Admits E x y plane := by
  induction v generalizing box x y plane with
  | image pixels =>
    exact Sampler.image_admits sound (.inr ⟨moderate.2.pixels_lt, moderate.2.line_lt⟩) reach.1
      reach.2 hp
  | strided grid => exact Sampler.strided_admits reach.1 reach.2 hp
  | crop child x0 y0 cols rows ih =>
    have none : -(quarter : Int) ≤ 0 ∧ (0 : Int) ≤ quarter := by unfold quarter; omega
    exact Sampler.crop_admits child.planar (ih sound moderate.2 reach.2.2 none)
      (ih sound moderate.2 reach.2.1 hp) reach.1.1 reach.1.2 hp
  | extend | convolve => exact Sampler.computed_admits_near reach.1 reach.2 hp
  | separable => exact moderate.elim

/-- Cursors reach the pixels of a moderate box and the places behind its end. -/
theorem admits {v : View A p} (sound : v.Sound) {box : Box} (room : Tolerant E ∨ v.Moderate box)
    {x y plane : Int} (hx : box.x ≤ x ∧ x ≤ box.x + box.width)
    (hy : box.y ≤ y ∧ y ≤ box.y + box.height) (hp : 0 ≤ plane ∧ plane ≤ v.planes) :
    v.sampler.Admits E x y plane := by
  rcases room with tolerant | moderate
  · exact fun fault _ => tolerant fault
  · have clear := moderate.clear
    have depth := clear.moderate.depth
    exact (clear.low.between clear.high hx hy).admits sound moderate (by omega)

end View

end ImageViews
