import ImageViews.Proofs.Settling
import ImageViews.View.Evaluate

/-!
# Boxes are evaluated quietly

The evaluation of a box reads neither the log nor the kernels that point access keeps, and it
builds no dense kernel: whatever records it leaves are of boxes. A prerasterized view holds no
separable filter, so it has no kernel to build either.
-/
namespace ImageViews

/-- Whether the record is of a dense kernel that was built. -/
def Record.isBuild : Record → Bool
  | kernelBuilt .. => true
  | separableBox .. | convolutionBox .. => false

/-- The records of dense kernels. -/
def Log.builds (log : Log) : Log := log.filter Record.isBuild

theorem Log.builds_append (log more : Log) : builds (log ++ more) = builds log ++ builds more :=
  List.filter_append log more

/-- Records may be added, but not of dense kernels. -/
def Regime.quiet : Regime Log where
  Good _ := True
  Allowed change := ∃ added, Log.builds added = [] ∧ ∀ log, change log = log ++ added
  allowed_id := ⟨[], rfl, fun log => (List.append_nil log).symm⟩
  allowed_comp := by
    rintro f g ⟨added, none, change⟩ ⟨added', none', change'⟩
    refine ⟨added ++ added', by rw [Log.builds_append, none, none']; rfl, fun log => ?_⟩
    rw [Function.comp_apply, change, change', List.append_assoc]
  good _ _ := trivial

/-- The evaluation gives one result, and leaves the same records in every state. -/
abbrev Quiet {α : Type} (render : Render α) : Prop := Settles Regime.quiet render

variable {α : Type} {n : Nat}

theorem Paint.record_quiet {record : Record} (h : record.isBuild = false) :
    Settles (Regime.quiet.painting α n) (Paint.record record) := by
  refine ⟨.ok (), Prod.map id (· ++ [record]), ⟨id, _, ⟨[record], ?_, fun _ => rfl⟩, rfl⟩,
    fun _ _ => rfl⟩
  simp [Log.builds, h]

theorem Image.render_settles {R : Regime Log} {storage : Storage α} {cols rows planes : Nat}
    {paint : Handle (cols * rows * planes) → Paint Log α (cols * rows * planes) Unit}
    (h : ∀ handle, Settles (R.painting α _) (paint handle)) :
    Settles R (Image.render storage cols rows planes paint) := by
  apply Settles.bind (.check _)
  intro _
  apply Settles.bind (.check _)
  intro whole
  apply Settles.bind (.onto (h whole) _)
  intro cells
  exact .pure _

namespace Tiler

/-- Every box is painted alike in all states, and no dense kernel is built. -/
def Quiet (t : Tiler α) : Prop :=
  ∀ {n : Nat} (handle : Handle n) (box : Box),
    Settles (Regime.quiet.painting α n) (t.rasterize handle box)

theorem strided_quiet (grid : Strided α) : (strided grid).Quiet :=
  fun handle box => (Sampler.strided_settled grid).paint handle box

theorem image_settles {R : Regime Log} (image : Image α) (handle : Handle n) (box : Box) :
    Settles (R.painting α n) ((Tiler.image image).rasterize handle box) := by
  apply Settles.bind (.check _)
  intro grid
  exact (Sampler.strided_settled grid).paint handle box

variable {t : Tiler α}

theorem Quiet.crop (h : t.Quiet) (x0 y0 : Int) (cols rows : Nat) :
    (t.crop x0 y0 cols rows).Quiet := by
  intro n handle box
  apply Settles.bind (.check _)
  intro moved
  exact h handle moved

theorem Quiet.region (h : t.Quiet) (storage : Storage α) (box : Box) :
    ImageViews.Quiet (t.region storage box) :=
  Image.render_settles fun handle => h handle box

theorem Quiet.paintPart (h : t.Quiet) (box part : Box) (whole : Handle n) :
    Settles (Regime.quiet.painting α n) (t.paintPart box part whole) := by
  apply Settles.bind (.check _)
  intro left
  apply Settles.bind (.check _)
  intro top
  apply Settles.bind (.check _)
  intro window
  exact h window part

theorem Quiet.padded (h : t.Quiet) (storage : Storage α) (box : Box) :
    ImageViews.Quiet (t.padded storage box) := by
  apply Settles.bind (.check _)
  intro common
  cases common with
  | none => exact .check _
  | some inner => exact Image.render_settles (h.paintPart box inner)

theorem Quiet.mapped (h : t.Quiet) (border : Border) (storage : Storage α) (box : Box) :
    ImageViews.Quiet (t.mapped border storage box) := by
  apply Settles.bind (.check _)
  intro xs
  apply Settles.bind (.check _)
  intro ys
  apply Settles.bind (.check _)
  intro source
  apply Settles.bind (h.region storage source)
  intro pixels
  exact .check _

theorem Quiet.extend (h : t.Quiet) (border : Border) (storage : Storage α) (box : Box) :
    ImageViews.Quiet (t.extend border storage box) := by
  unfold Tiler.extend
  split
  · exact .check _
  apply Settles.bind (.check _)
  intro inside
  split
  · exact h.region storage box
  split
  · exact h.padded storage box
  · exact h.mapped border storage box

theorem Quiet.extended (h : t.Quiet) (border : Border) (storage : Storage α) :
    (t.extended border storage).Quiet := by
  intro n handle box
  apply Settles.bind (.accept handle box t.planes)
  intro _
  apply Settles.bind (.render (h.extend border storage box))
  intro image
  exact image_settles image handle _

section Filters

variable {A : Arithmetic} {p : A.Pixel} {k : A.Coeff} {q : A.Pixel} {t : Tiler (A.Value p)}

theorem Quiet.windowsPatch (h : t.Quiet) {cols rows : Nat} (anchor : Anchor cols rows)
    (border : Option Border) (box : Box) : ImageViews.Quiet (t.windowsPatch anchor border box) := by
  apply Settles.bind (.check _)
  intro source
  have shown : ImageViews.Quiet (t.regionWith border (A.storage p) source) := by
    cases border with
    | none => exact h.region (A.storage p) source
    | some border => exact h.extend border (A.storage p) source
  apply Settles.bind shown
  intro image
  exact .check _

theorem Quiet.convolve (h : t.Quiet) (hq : A.product p k = some q)
    (kernel : Kernel (A.Factor k)) (anchor : Anchor kernel.cols kernel.rows)
    (border : Option Border) : (t.convolve hq kernel anchor border).Quiet := by
  intro n handle box
  apply Settles.bind (.accept handle box t.planes)
  intro _
  apply Settles.bind (Paint.record_quiet rfl)
  intro _
  apply Settles.bind (.render (h.windowsPatch anchor border box))
  intro patch
  have source := (Sampler.image_settled (R := Regime.quiet) patch.image).crop patch.dx patch.dy
    t.cols t.rows
  exact (source.convolve hq kernel anchor none).paint handle box

theorem convolveRows_settles {R : Regime Log} (grid : Strided (A.Value p))
    (hq : A.product p k = some q) (factor : List (A.Factor k)) (handle : Handle n) :
    Settles (R.painting _ n) (convolveRows grid hq factor handle) := by
  apply Settles.bind (.check _)
  intro read
  apply Settles.bind (.check _)
  intro needed
  apply Settles.bind (.check _)
  intro _
  apply Settles.bind (.check _)
  intro _
  have source := Sampler.strided_settled (R := R) grid
  exact handle.fill_settles _ fun place => source.correlateRow hq _ place _

section Passes

variable {R : Regime Log} (source : Image (A.Value p)) (hq : A.product p k = some q)
  (row col : List (A.Factor k)) (handle : Handle n)

theorem scalePass_settles : Settles (R.painting _ n)
    (handle.fill .coordinates ({} : Position) fun (place : Position) => do
      let pixel ← source.fetch (Extent.ofCoordinate place.x) (Extent.ofCoordinate place.y)
        (Extent.ofCoordinate place.p)
      A.scale hq pixel (A.one k) : Paint Log (A.Value q) n Unit) := by
  refine handle.fill_settles _ fun place => ?_
  apply Settles.bind (.probe_check _)
  intro pixel
  exact .probe_check _

theorem rowPass_settles : Settles (R.painting _ n)
    (do convolveRows (← source.strided) hq row handle : Paint Log (A.Value q) n Unit) := by
  apply Settles.bind (.check _)
  intro grid
  exact convolveRows_settles grid hq row handle

theorem colPass_settles : Settles (R.painting _ n)
    (do convolveRows (← source.strided).transpose hq col handle.transpose :
      Paint Log (A.Value q) n Unit) := by
  apply Settles.bind (.check _)
  intro grid
  exact convolveRows_settles _ hq col _

theorem rowColPass_settles (width height planes : Nat) : Settles (R.painting _ n)
    (do
      let lines ← Image.render (A.storage q) width height planes fun whole => do
        convolveRows (← source.strided) hq row whole
      convolveRows (← lines.strided).transpose (A.product_closed hq) col handle.transpose :
      Paint Log (A.Value q) n Unit) := by
  apply Settles.bind (.render (Image.render_settles (rowPass_settles source hq row)))
  intro lines
  exact colPass_settles lines _ col handle

end Passes

theorem Quiet.passes (h : t.Quiet) (hq : A.product p k = some q) (row col : List (A.Factor k))
    (anchor : Anchor (max 1 row.length) (max 1 col.length)) (border : Border) (handle : Handle n)
    (box : Box) : Settles (Regime.quiet.painting _ n)
      (t.separablePasses hq row col anchor border handle box) := by
  unfold separablePasses
  split
  · apply Settles.bind (.render (h.extend border (A.storage p) box))
    intro source
    exact scalePass_settles source hq handle
  apply Settles.bind (.check _)
  intro sourceBox
  apply Settles.bind (.render (h.extend border (A.storage p) sourceBox))
  intro source
  split
  · exact rowPass_settles source hq row handle
  split
  · exact colPass_settles source hq col handle
  · exact rowColPass_settles source hq row col handle _ _ _

theorem Quiet.separable (h : t.Quiet) (hq : A.product p k = some q) (row col : List (A.Factor k))
    (anchor : Anchor (max 1 row.length) (max 1 col.length)) (border : Border) :
    (t.separable hq row col anchor border).Quiet := by
  intro n handle box
  apply Settles.bind (.accept handle box t.planes)
  intro _
  apply Settles.bind (Paint.record_quiet rfl)
  intro _
  exact h.passes hq row col anchor border handle box

end Filters

end Tiler

namespace View

variable {A : Arithmetic} {p : A.Pixel}

theorem tiler_quiet (v : View A p) : v.tiler.Quiet := by
  induction v with
  | image pixels => exact Tiler.image_settles pixels
  | strided grid => exact Tiler.strided_quiet grid
  | crop child x0 y0 cols rows ih => exact ih.crop x0 y0 cols rows
  | extend child border ih => exact ih.extended border _
  | convolve child h kernel anchor border ih => exact ih.convolve h kernel anchor border
  | separable child h row col anchor border ih => exact ih.separable h row col anchor border

theorem prerasterize_quiet (v : View A p) (box : Box) : Quiet (v.prerasterize box) := by
  induction v generalizing box with
  | image pixels =>
    apply Settles.bind (.check _)
    intro grid
    exact .pure _
  | strided grid => exact .pure _
  | crop child x0 y0 cols rows ih =>
    apply Settles.bind (.check _)
    intro moved
    apply Settles.bind (ih moved)
    intro child'
    exact .pure _
  | extend child border =>
    apply Settles.bind (Tiler.Quiet.extend child.tiler_quiet border _ box)
    intro image
    apply Settles.bind (.check _)
    intro patch
    exact .pure _
  | convolve child h kernel anchor border =>
    apply Settles.bind (Tiler.Quiet.windowsPatch child.tiler_quiet anchor border box)
    intro patch
    exact .pure _
  | separable child h row col anchor border =>
    apply Settles.bind (Image.render_settles fun handle =>
      Tiler.Quiet.passes child.tiler_quiet h row col anchor border handle box)
    intro image
    apply Settles.bind (.check _)
    intro patch
    exact .pure _

end View

end ImageViews
