import ImageViews.Pixel.Standard
import ImageViews.Proofs.Runs

/-!
# Intermediate images

A border only asks for pixels of the extent of its child, so the image of that extent can stand in
for the child, at any depth of a view. It makes no difference whether pixels are evaluated for the
boxes that need them, or stage by stage with an image in between.
-/
namespace ImageViews.View

variable {E : Fault → Prop} {A : Arithmetic} {p q : A.Pixel} {box : Box}

/-- What reads a child through a border. -/
inductive Stage (A : Arithmetic) : A.Pixel → A.Pixel → Type
  | extend {p : A.Pixel} (border : Border) : Stage A p p
  | convolve {p : A.Pixel} {k : A.Coeff} {q : A.Pixel} (h : A.product p k = some q)
    (kernel : Kernel (A.Factor k)) (anchor : Anchor kernel.cols kernel.rows)
    (border : Border) : Stage A p q
  | separable {p : A.Pixel} {k : A.Coeff} {q : A.Pixel} (h : A.product p k = some q)
    (row col : List (A.Factor k)) (anchor : Anchor (max 1 row.length) (max 1 col.length))
    (border : Border) : Stage A p q

def Stage.toView : {p q : A.Pixel} → Stage A p q → View A p → View A q
  | _, _, extend border, child => .extend child border
  | _, _, convolve h kernel anchor border, child => .convolve child h kernel anchor (some border)
  | _, _, separable h row col anchor border, child => .separable child h row col anchor border

/-- The view over the image of another. -/
def Stage.eager (stage : Stage A p q) (child : View A p) : Render (View A q) := do
  let image ← child.toImage
  return stage.toView (.image image .computed)

/-- The view with every child that is read through a border replaced by its image, one after the
other from the innermost on. -/
def staged : {p : A.Pixel} → View A p → Render (View A p)
  | _, image pixels provenance => return .image pixels provenance
  | _, strided grid => return .strided grid
  | _, crop child x0 y0 cols rows => do
    let child ← child.staged
    return .crop child x0 y0 cols rows
  | _, extend child border => do
    (Stage.extend border).eager (← child.staged)
  | _, convolve child h kernel anchor none => do
    let child ← child.staged
    return .convolve child h kernel anchor none
  | _, convolve child h kernel anchor (some border) => do
    (Stage.convolve h kernel anchor border).eager (← child.staged)
  | _, separable child h row col anchor border => do
    (Stage.separable h row col anchor border).eager (← child.staged)

/-- The view `v'` has the pixels of `v`, and boxes of it show the same. -/
structure StandIn (v v' : View A p) : Prop where
  formed : v'.WellFormed
  holds : ∀ {x y : Int}, v.Holds x y → v'.Holds x y
  cols_eq : v'.cols = v.cols
  rows_eq : v'.rows = v.rows
  planes_eq : v'.planes = v.planes
  value_eq : ∀ (x y : Int) {plane : Nat}, plane < v.planes →
    v'.value .box x y plane = v.value .box x y plane

/-- Wherever both succeed, the views paint the same cells for a box, and make the same image of
it. -/
structure Alike (v v' : View A p) (box : Box) : Prop where
  cells_eq : ∀ {n : Nat} (handle : Handle n), handle.Sound → handle.Takes box v.planes →
    ∀ cells log log' cells₁ cells₂ log₁ log₂,
      (v.rasterize handle box).run.run (cells, log) = (.ok (), cells₁, log₁) →
      (v'.rasterize handle box).run.run (cells, log') = (.ok (), cells₂, log₂) → cells₁ = cells₂
  image_eq : ∀ log log' image₁ image₂ log₁ log₂,
    (v.region box).run.run log = (.ok image₁, log₁) →
    (v'.region box).run.run log' = (.ok image₂, log₂) → image₁ = image₂

section StandIn

variable {v v' : View A p}

theorem StandIn.alike (h : v.StandIn v') (formed : v.WellFormed)
    (inside : v.Everywhere ∨ box.Within v.bounds) : v.Alike v' box := by
  have covers : v.Covers box := formed.covers_of_inside inside
  have covers' : v'.Covers box := h.formed.covers fun hplanes x y has =>
    h.holds (covers.holds (h.planes_eq ▸ hplanes) has)
  constructor
  · intro n handle hs takes cells log log' cells₁ cells₂ log₁ log₂ run run'
    have painted := painted_of_rasterize formed.sound covers hs takes run
    have painted' := painted_of_rasterize h.formed.sound covers' hs (h.planes_eq ▸ takes) run'
    exact painted.unique (painted'.of_pixel fun hij _ => h.value_eq _ _ (takes.has hij).2)
  · intro log log' image₁ image₂ log₁ log₂ run run'
    have displays := displays_of_region formed.sound covers run
    have displays' := displays_of_region h.formed.sound covers' run'
    rw [h.planes_eq] at displays'
    refine displays.unique (displays'.congr ?_)
    intro x y plane a _ _ hp value
    rwa [h.value_eq _ _ hp] at value

end StandIn

namespace Stage

/-- Through a border an image shows what it displays. -/
theorem source_of_displays {α : Type} {image : Image α} {cols rows planes : Nat}
    {pixel : Int → Int → Nat → Check α}
    (displays : image.Displays cols rows planes fun x y plane => pixel x y plane)
    {border : Border} {blank : α} {plane : Nat} (hplane : plane < planes) :
    border.value .box blank image.cols image.rows (image.value · · plane) =
      border.value .box blank cols rows (pixel · · plane) := by
  rw [displays.cols_eq, displays.rows_eq]
  funext x y
  apply Border.value_congr
  intro u v reads
  apply reads.holds (H := fun u v => image.value u v plane = pixel u v plane)
  intro hcols hrows
  have extents := displays.extents_fit hcols hrows (Nat.zero_lt_of_lt hplane)
  refine ⟨?_, .inr ⟨⟨extents.1, extents.2.1⟩, fun x y has => ?_⟩⟩
  · unfold Coordinate.greatest at extents
    unfold Extent.modulus
    omega
  · simp only [Box.Has, Box.ofExtent] at has
    obtain ⟨x, rfl⟩ := Int.eq_ofNat_of_zero_le has.1.1
    obtain ⟨y, rfl⟩ := Int.eq_ofNat_of_zero_le has.2.1
    exact displays.value_eq (by omega) (by omega) hplane

variable (stage : Stage A p q) {child child' : View A p}

theorem toView_extent (child : View A p) : (stage.toView child).cols = child.cols ∧
    (stage.toView child).rows = child.rows ∧ (stage.toView child).planes = child.planes := by
  cases stage with
  | extend | convolve | separable => exact ⟨rfl, rfl, rfl⟩

theorem toView_everywhere : (stage.toView child).Everywhere := by
  cases stage with
  | extend | convolve | separable => trivial

theorem child_formed (formed : (stage.toView child).WellFormed) : child.WellFormed := by
  cases stage with
  | extend => exact formed
  | convolve | separable => exact formed.1

theorem toView_formed (formed : (stage.toView child).WellFormed) (formed' : child'.WellFormed) :
    (stage.toView child').WellFormed := by
  cases stage with
  | extend => exact formed'
  | convolve | separable => exact ⟨formed', formed.2⟩

/-- Children that show the same through a border can be exchanged. -/
theorem toView_value {plane : Nat} (same : ∀ border : Border,
    border.value .box (A.blank p) child'.cols child'.rows (child'.value .box · · plane) =
      border.value .box (A.blank p) child.cols child.rows (child.value .box · · plane))
    (x y : Int) :
    (stage.toView child').value .box x y plane = (stage.toView child).value .box x y plane := by
  cases stage with
  | extend | convolve | separable => simp only [toView, value, same]

/-- The image of its child can stand in for the child of a stage. -/
theorem image_standIn {image : Image (A.Value p)} {provenance : Provenance}
    (formed : (stage.toView child).WellFormed)
    (displays : image.Displays child.cols child.rows child.planes fun x y plane =>
      child.value .box x y plane) :
    (stage.toView child).StandIn (stage.toView (.image image provenance)) := by
  obtain ⟨cols, rows, planes⟩ := stage.toView_extent child
  obtain ⟨cols', rows', planes'⟩ := stage.toView_extent (.image image provenance)
  exact {
    formed := stage.toView_formed formed displays.addressable
    holds := fun _ => stage.toView_everywhere.holds _ _
    cols_eq := (cols'.trans displays.cols_eq).trans cols.symm
    rows_eq := (rows'.trans displays.rows_eq).trans rows.symm
    planes_eq := (planes'.trans displays.planes_eq).trans planes.symm
    value_eq := fun x y plane hplane =>
      stage.toView_value (fun border => source_of_displays displays (planes ▸ hplane)) x y }

/-- The stage over the image of what stands in for its child. -/
theorem eager_yields (tolerant : Tolerant E) (formed : (stage.toView child).WellFormed)
    (h : child.StandIn child') {log : Log} :
    Yields (Failure.Tolerated E) (stage.eager child') log fun v _ =>
      (stage.toView child).StandIn v := by
  have covers : child'.Covers child'.bounds := h.formed.covers_of_inside (.inr Box.Within.refl)
  apply Yields.bind
  apply (Tiler.region_yields (.inl tolerant) fun _ =>
    paints h.formed.sound (.inl tolerant) covers).mono
  intro image _ displays
  have whole : image.Displays child.cols child.rows child.planes fun x y plane =>
      child'.value .box (0 + x) (0 + y) plane := by
    rw [← h.cols_eq, ← h.rows_eq, ← h.planes_eq]
    exact displays
  refine Yields.pure (stage.image_standIn formed (whole.congr ?_))
  intro x y plane a _ _ hp value
  rwa [h.value_eq _ _ hp, Int.zero_add, Int.zero_add] at value

end Stage

theorem StandIn.refl {v : View A p} (formed : v.WellFormed) : v.StandIn v :=
  ⟨formed, id, rfl, rfl, rfl, fun _ _ _ _ => rfl⟩

theorem StandIn.crop {child child' : View A p} {x0 y0 : Int} {cols rows : Nat}
    (formed : (child.crop x0 y0 cols rows).WellFormed) (h : child.StandIn child') :
    (child.crop x0 y0 cols rows).StandIn (child'.crop x0 y0 cols rows) where
  formed := ⟨h.formed, formed.2.1, fun x y has => h.holds (formed.2.2 x y has)⟩
  holds := h.holds
  cols_eq := rfl
  rows_eq := rfl
  planes_eq := h.planes_eq
  value_eq x y _ hplane := h.value_eq (x + x0) (y + y0) hplane

/-- Evaluated stage by stage, a view shows what it did. -/
theorem staged_yields {v : View A p} (tolerant : Tolerant E) (formed : v.WellFormed) {log : Log} :
    Yields (Failure.Tolerated E) v.staged log fun v' _ => v.StandIn v' := by
  induction v generalizing log with
  | image | strided => exact Yields.pure (.refl formed)
  | crop child x0 y0 cols rows ih =>
    exact Yields.bind ((ih formed.1).mono fun _ _ h => Yields.pure (h.crop formed))
  | extend child border ih =>
    exact Yields.bind ((ih formed).mono fun _ _ h =>
      (Stage.extend border).eager_yields tolerant formed h)
  | convolve child hprod kernel anchor border ih =>
    cases border with
    | none => exact formed.elim
    | some border =>
      exact Yields.bind ((ih formed.1).mono fun _ _ h =>
        (Stage.convolve hprod kernel anchor border).eager_yields tolerant formed h)
  | separable child hprod row col anchor border ih =>
    exact Yields.bind ((ih formed.1).mono fun _ _ h =>
      (Stage.separable hprod row col anchor border).eager_yields tolerant formed h)

/-- A view evaluated lazily shows the same as over the image of its child, and as a view evaluated
stage by stage. -/
theorem lazy_alike_eager :
    (∀ {p q : A.Pixel} (stage : Stage A p q) (child : View A p), (stage.toView child).WellFormed →
      ∀ log v' log', (stage.eager child).run.run log = (.ok v', log') →
        ∀ box, (stage.toView child).Alike v' box) ∧
      ∀ {p : A.Pixel} (v : View A p), v.WellFormed →
        ∀ log v' log', v.staged.run.run log = (.ok v', log') →
          ∀ box, (v.Everywhere ∨ box.Within v.bounds) → v.Alike v' box := by
  refine ⟨fun stage child formed log v' log' run box => ?_,
    fun v formed log v' log' run box inside => ?_⟩
  · have standIn := (stage.eager_yields Lenient.tolerant formed
      (.refl (stage.child_formed formed))).value run
    exact standIn.alike formed (.inl stage.toView_everywhere)
  · have standIn := (staged_yields Lenient.tolerant formed).value run
    exact standIn.alike formed inside

/-- Two pixels, repeated and cut to four, then mirrored. -/
def mirrored : View .standard PixelKind.u8 :=
  extend (A := .standard) (p := PixelKind.u8)
    (crop (A := .standard) (p := PixelKind.u8)
      (extend (A := .standard) (p := PixelKind.u8)
        (image (A := .standard) (p := PixelKind.u8)
          { cols := 2, rows := 1, planes := 1, cells := (#[1, 2] : Array UInt8), size_cells := rfl }
          .given) .wrap) (-1) 0 4 1) .reflect

/-- A box that reaches beyond all sides of the view. -/
def mirroredBox : Box := { x := -2, y := -1, width := 8, height := 3 }

theorem mirrored_alike_eager : ∃ v' image log₀ log₁ log₂,
    mirrored.staged.run.run [] = (.ok v', log₀) ∧
      (mirrored.region mirroredBox).run.run [] = (.ok image, log₁) ∧
      (v'.region mirroredBox).run.run log₀ = (.ok image, log₂) := by
  have formed : mirrored.WellFormed :=
    ⟨show (2 : Int) ≤ Coordinate.greatest by decide, by decide, fun _ _ _ => trivial⟩
  have staged : (mirrored.staged.run.run []).1.isOk := by
    decide +kernel
  have lazily : ((mirrored.region mirroredBox).run.run []).1.isOk := by
    decide +kernel
  have eagerly : (do (← mirrored.staged).region mirroredBox : Render _).run.run [] |>.1.isOk := by
    decide +kernel
  obtain ⟨v', log₀, run₀, -⟩ := exists_of_isOk staged
  obtain ⟨image, log₁, run₁, -⟩ := exists_of_isOk lazily
  rw [run_bind, run₀] at eagerly
  obtain ⟨image', log₂, run₂, -⟩ := exists_of_isOk eagerly
  have alike := lazy_alike_eager.2 mirrored formed _ _ _ run₀ mirroredBox (.inl trivial)
  exact ⟨v', image, log₀, log₁, log₂, run₀, run₁, alike.image_eq _ _ _ _ _ _ run₁ run₂ ▸ run₂⟩

end ImageViews.View
