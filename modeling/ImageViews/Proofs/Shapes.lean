import ImageViews.Pixel.Masked
import ImageViews.Proofs.Delivering

/-!
# Passes that fit

A pass along the rows of a grid asks that the grid be wider than its destination by one less than
the length of the factor, and as high. The grids and buffers that a filter makes for its passes
always are. So if the pixel arithmetic does not report a misfit of its own, no evaluation of a box
does, whatever view is filtered and however its evaluation may end otherwise.
-/
namespace ImageViews

variable {α β σ ε : Type} {n : Nat}

/-- The check does not report a misfit. -/
def Check.Fits (check : Check α) : Prop := check ≠ .error .passShape

namespace Check.Fits

variable {check : Check α} {f : α → Check β}

theorem ok (a : α) : Check.Fits (.ok a) := nofun

theorem error {fault : Fault} (h : fault ≠ .passShape) : Check.Fits (.error fault : Check α) :=
  fun same => h (Except.error.inj same)

theorem bind (h : check.Fits) (hf : ∀ a, (f a).Fits) : (check >>= f).Fits := by
  cases check with
  | ok a => exact hf a
  | error fault => exact fun same => h (congrArg _ (Except.error.inj same))

theorem yields (h : check.Fits) : check.Yields (· ≠ .passShape) fun _ => True :=
  .of_tolerable (fun _ raised same => h (raised.trans (congrArg _ same))) fun _ _ => trivial

end Check.Fits

theorem passShape_lax : Lax (· ≠ .passShape) := by
  rintro _ spatial rfl
  exact spatial

/-- The evaluation fails with `cause` in no state. -/
def Spares (cause : ε) (m : ExceptT ε (StateM σ) α) : Prop := ∀ s, (m.run.run s).1 ≠ .error cause

/-- While painting or rendering, no misfit is reported. -/
abbrev Fitting (m : ExceptT Failure (StateM σ) α) : Prop := Spares (.fault .passShape) m

/-- Products and sums of pixels report no misfit. -/
structure Arithmetic.Fits (A : Arithmetic) : Prop where
  scale : ∀ {p : A.Pixel} {k : A.Coeff} {q : A.Pixel} (h : A.product p k = some q)
    (value : A.Value p) (factor : A.Factor k), (A.scale h value factor).Fits
  add : ∀ {p : A.Pixel} (a b : A.Value p), (A.add a b).Fits

section Sums

variable {A : Arithmetic} {p : A.Pixel} {k : A.Coeff} {q : A.Pixel} (hA : A.Fits)
  (hq : A.product p k = some q)

include hA

theorem Arithmetic.Fits.sums (coeffs : List (A.Factor k)) (sum : A.Value q) :
    Sums (· ≠ .passShape) (fun _ => True) (fun _ => True) hq coeffs sum := by
  induction coeffs generalizing sum with
  | nil => trivial
  | cons coeff coeffs ih =>
    intro pixel _
    apply (hA.scale hq pixel coeff).yields.mono
    intro product _
    apply (hA.add sum product).yields.mono
    intro sum' _
    exact ih sum'

theorem Arithmetic.Fits.passes (row col : List (A.Factor k)) :
    Tiler.Passes (· ≠ .passShape) (fun _ => True) (fun _ => True) hq row col where
  plain _ _ pixel _ := (hA.scale hq pixel (A.one k)).yields
  alongRow _ _ := hA.sums hq _ _
  alongCol _ _ := hA.sums hq _ _
  both _ _ := ⟨fun _ => True, trivial, hA.sums hq _ _, hA.sums _ _ _⟩

end Sums

namespace Tiler

/-- Painting a box reports no misfit. -/
def Fits (t : Tiler α) : Prop :=
  ∀ {n : Nat} (handle : Handle n) (box : Box), Fitting (t.rasterize handle box)

/-- Delivering pixels of any kind reports no misfit if none is tolerated. -/
theorem Delivers.fits {t : Tiler α} {P : α → Prop} (h : t.Delivers (· ≠ .passShape) P) :
    t.Fits := by
  intro n handle box s
  exact (h handle box s.1 s.2).ne_error (· rfl)

end Tiler

/-- While the boxes of a view are painted, every pass fits. -/
theorem View.tiler_fits {A : Arithmetic} (hA : A.Fits) {p : A.Pixel} (v : View A p) :
    v.tiler.Fits := by
  have lax := passShape_lax
  have delivers : v.tiler.Delivers (· ≠ .passShape) fun _ => True := by
    induction v with
    | image pixels => exact Tiler.image_delivers lax fun _ _ => trivial
    | strided grid => exact Tiler.strided_delivers lax fun _ _ => trivial
    | crop child x0 y0 cols rows ih => exact ih.crop lax x0 y0 cols rows
    | extend child border ih => exact ih.extended lax trivial border
    | convolve child h kernel anchor border ih =>
      exact ih.convolve lax trivial (hA.sums h _ _) anchor border
    | separable child h row col anchor border ih =>
      exact ih.separable lax child.tiler_serves trivial (hA.passes h row col) border
  intro n handle box
  exact delivers.fits handle box

theorem Integer32.checked_fits (i : Int) : (checked i).Fits := by
  unfold checked
  split
  · exact .ok _
  · exact .error nofun

namespace Arithmetic

theorem standard_fits : standard.Fits where
  scale {p k q} h a c := by
    have mul_fits (a b : Int32) : (Integer32.mul a b).Fits := Integer32.checked_fits _
    change (PixelKind.scale h a c).Fits
    unfold PixelKind.scale
    split <;> first | exact mul_fits _ _ | exact .ok _
  add {p} a b := by
    change (PixelKind.add a b).Fits
    cases p with
    | i32 => exact Integer32.checked_fits _
    | f32 | f64 => exact .ok _
    | u8 | u16 | i16 => exact .error nofun

/-- Masks do not change the faults of the values. -/
theorem Fits.masked {A : Arithmetic} (hA : A.Fits) : A.masked.Fits where
  scale h a c := .bind (hA.scale h a.value c) fun _ => .ok _
  add a b := .bind (hA.add a.value b.value) fun _ => .ok _

end Arithmetic

end ImageViews
