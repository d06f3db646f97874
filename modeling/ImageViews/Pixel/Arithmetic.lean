import ImageViews.Cells

/-!
# Pixel arithmetic

Filters multiply pixels by coefficients and sum the products. An `Arithmetic` says which kinds of
pixels and coefficients there are, which products exist, and how to evaluate them. Nothing is
assumed about the operations: they may round, and they may fault.
-/
namespace ImageViews

structure Arithmetic where
  Pixel : Type
  Coeff : Type
  Value : Pixel → Type
  Factor : Coeff → Type
  storage : (p : Pixel) → Storage (Value p)
  product : Pixel → Coeff → Option Pixel
  product_closed : ∀ {p : Pixel} {k : Coeff} {q : Pixel}, product p k = some q →
    product q k = some q
  scale : {p : Pixel} → {k : Coeff} → {q : Pixel} → product p k = some q →
    Value p → Factor k → Check (Value q)
  /-- The empty sum made from a blank pixel. -/
  validate : {p : Pixel} → Value p → Value p
  add : {p : Pixel} → Value p → Value p → Check (Value p)
  /-- The coefficient that stands for an absent factor. -/
  one : (k : Coeff) → Factor k
  times : {k : Coeff} → Factor k → Factor k → Check (Factor k)

/-- The pixel where there is no image. -/
def Arithmetic.blank (A : Arithmetic) (p : A.Pixel) : A.Value p := (A.storage p).blank

def Arithmetic.start (A : Arithmetic) (p : A.Pixel) : A.Value p := A.validate (A.blank p)

/-- No pixel has a flag to be set before sums are formed. -/
def Arithmetic.Unflagged (A : Arithmetic) : Prop :=
  ∀ (p : A.Pixel) (v : A.Value p), A.validate v = v

end ImageViews
