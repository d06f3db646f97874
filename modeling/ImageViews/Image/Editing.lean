import ImageViews.Pixel.Cast
import ImageViews.Tiler.Basic

/-!
# Editing images

An image is edited step by step: it is made anew, a value is written into it, its rows and columns
are exchanged, one of its planes is kept, or all of its values are converted. A step that fails
leaves the image as it was.
-/
namespace ImageViews

/-- A kind of values and how they are stored. -/
structure Format where
  Value : Type
  storage : Storage Value

def Format.standard (p : PixelKind) : Format where
  Value := p.Value
  storage := Arithmetic.standard.storage p

/-- The image with rows and columns exchanged, which is painted from the transposed grid. -/
def Image.transposed {α : Type} (storage : Storage α) (image : Image α) : Render (Image α) := do
  let grid ← image.strided
  let source : Tiler α := .strided grid.transpose
  source.region storage source.bounds

/-- A step on an image of one format that leaves an image of another one. -/
inductive Edit : Format → Format → Type 1
  | ofCells {P : Format} (cols rows planes : Nat) (cells : Array P.Value) : Edit P P
  | replicate {P : Format} (cols rows planes : Nat) (value : P.Value) : Edit P P
  | generate {P : Format} (cols rows planes : Nat) (f : Nat → Nat → Nat → P.Value) : Edit P P
  | set {P : Format} (x y p : Nat) (value : P.Value) : Edit P P
  | setIndex {P : Format} (i : Nat) (value : P.Value) : Edit P P
  | transpose {P : Format} : Edit P P
  | channel {P : Format} (plane : Nat) : Edit P P
  | map {P Q : Format} (f : P.Value → Q.Value) : Edit P Q
  | cast {p q : PixelKind} (convert : p.Value → q.Value) (h : p.cast? q = some convert) :
    Edit (.standard p) (.standard q)

inductive Edits : Format → Format → Type 1
  | nil {P : Format} : Edits P P
  | cons {P Q R : Format} (edit : Edit P Q) (edits : Edits Q R) : Edits P R

/-- The answer of a step: whether the position it writes to lies inside, or why it fails. -/
abbrev Edit.Answer := Except Failure Bool

/-- The new image, or the old one if there is no new one. -/
def Image.replacedBy {α : Type} (image : Image α) :
    Except Failure (Image α) → Edit.Answer × Image α
  | .ok image' => (.ok true, image')
  | .error cause => (.error cause, image)

def Edit.run : {P Q : Format} → Edit P Q → Image P.Value → Answer × Image Q.Value
  | _, _, ofCells cols rows planes cells, image =>
    image.replacedBy (Image.ofCells cols rows planes cells)
  | P, _, replicate cols rows planes value, image =>
    image.replacedBy (liftM (Image.replicate P.storage.bytes cols rows planes value))
  | P, _, generate cols rows planes f, image =>
    image.replacedBy (liftM
      (Image.generate P.storage.bytes cols rows planes fun x y p => .ok (f x y p)))
  | _, _, set x y p value, image =>
    match image.set? x y p value with
    | some image' => (.ok true, image')
    | none => (.ok false, image)
  | _, _, setIndex i value, image => image.replacedBy (liftM (image.setIndex i value))
  | P, _, transpose, image => image.replacedBy ((image.transposed P.storage).run.run []).1
  | _, _, channel plane, image => image.replacedBy ((image.channel plane).mapError .error)
  | _, _, map f, image => (.ok true, image.map f)
  | _, _, cast convert _, image => (.ok true, image.map convert)

def Edits.run : {P Q : Format} → Edits P Q → Image P.Value → List Edit.Answer × Image Q.Value
  | _, _, nil, image => ([], image)
  | _, _, cons edit edits, image =>
    let (answer, image) := edit.run image
    let (answers, image) := edits.run image
    (answer :: answers, image)

end ImageViews
