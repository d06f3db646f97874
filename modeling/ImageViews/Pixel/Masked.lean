import ImageViews.Pixel.Arithmetic

/-!
# Masked pixels

A masked pixel carries a flag that tells whether its value can be trusted. A sum is valid when
both terms are, and a product when its pixel is, so one invalid pixel spoils every sum it enters.
A blank masked pixel is invalid; the empty sum is valid, whatever its value says about itself. The
flag is stored behind the value and padded up to the next place where a value may be stored.
-/
namespace ImageViews

structure Masked (α : Type) where
  value : α
  valid : Bool
  deriving BEq, Repr

namespace Masked

variable {α β : Type}

def trusted (value : α) : Masked α := { value, valid := true }

def invalid (value : α) : Masked α := { value, valid := false }

def invalidate (m : Masked α) : Masked α := { m with valid := false }

def validate (m : Masked α) : Masked α := { m with valid := true }

def add (sum : α → α → Check α) (a b : Masked α) : Check (Masked α) := do
  return { value := ← sum a.value b.value, valid := a.valid && b.valid }

/-- An operation on the value that keeps the validity. -/
def onValue (f : α → Check β) (m : Masked α) : Check (Masked β) := do
  return { value := ← f m.value, valid := m.valid }

end Masked

/-- The arithmetic of pixels with a mask, over the same coefficients. -/
def Arithmetic.masked (A : Arithmetic) : Arithmetic where
  Pixel := A.Pixel
  Coeff := A.Coeff
  Value p := Masked (A.Value p)
  Factor := A.Factor
  storage p :=
    { blank := .invalid (A.blank p)
      bytes := (A.storage p).bytes + (A.storage p).align
      align := (A.storage p).align
      bytes_pos := Nat.add_pos_left (A.storage p).bytes_pos _
      align_dvd := Nat.dvd_add (A.storage p).align_dvd (Nat.dvd_refl _) }
  product := A.product
  product_closed := A.product_closed
  scale h m k := m.onValue (A.scale h · k)
  validate := Masked.validate
  add := Masked.add A.add
  one := A.one
  times := A.times

end ImageViews
