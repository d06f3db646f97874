import ImageViews.Pixel.Arithmetic

/-!
# Standard pixels

Pixels are 8 or 16 bit unsigned, 16 or 32 bit signed integers, or floating point numbers of single
or double precision; coefficients are 32 bit integers or floating point numbers. A product has the
kind of its coefficient, and exists when that kind holds every value of the pixel. Integer products
and sums that do not fit 32 bits fault; floating point ones round.
-/
namespace ImageViews

inductive PixelKind
  | u8 | u16 | i16 | i32 | f32 | f64
  deriving DecidableEq, Repr

inductive CoeffKind
  | i32 | f32 | f64
  deriving DecidableEq, Repr

namespace PixelKind

abbrev Value : PixelKind → Type
  | u8 => UInt8
  | u16 => UInt16
  | i16 => Int16
  | i32 => Int32
  | f32 => Float32
  | f64 => Float

def zero : (p : PixelKind) → p.Value
  | u8 => (0 : UInt8)
  | u16 => (0 : UInt16)
  | i16 => (0 : Int16)
  | i32 => (0 : Int32)
  | f32 => (0 : Float32)
  | f64 => (0 : Float)

def bytes : PixelKind → Nat
  | u8 => 1
  | u16 | i16 => 2
  | i32 | f32 => 4
  | f64 => 8

theorem bytes_pos (p : PixelKind) : 0 < p.bytes := by
  cases p <;> decide

/-- Equality of pixel values; for floating point it is the comparison of numbers, so a NaN differs
from itself. -/
@[reducible] def valueBEq : (p : PixelKind) → BEq p.Value
  | u8 => inferInstanceAs (BEq UInt8)
  | u16 => inferInstanceAs (BEq UInt16)
  | i16 => inferInstanceAs (BEq Int16)
  | i32 => inferInstanceAs (BEq Int32)
  | f32 => inferInstanceAs (BEq Float32)
  | f64 => inferInstanceAs (BEq Float)

end PixelKind

namespace CoeffKind

abbrev Value : CoeffKind → Type
  | i32 => Int32
  | f32 => Float32
  | f64 => Float

def one : (k : CoeffKind) → k.Value
  | i32 => (1 : Int32)
  | f32 => (1 : Float32)
  | f64 => (1 : Float)

end CoeffKind

namespace Integer32

/-- Accepts the integers of 32 bits. -/
def checked (i : Int) : Check Int32 :=
  if -0x80000000 ≤ i ∧ i ≤ 0x7fffffff then .ok (Int32.ofInt i) else .error .pixelOverflow

def add (a b : Int32) : Check Int32 := checked (a.toInt + b.toInt)
def mul (a b : Int32) : Check Int32 := checked (a.toInt * b.toInt)

end Integer32

namespace PixelKind

def product : PixelKind → CoeffKind → Option PixelKind
  | u8, .i32 | u16, .i32 | i16, .i32 | i32, .i32 => some i32
  | u8, .f32 | u16, .f32 | i16, .f32 | f32, .f32 => some f32
  | _, .f64 => some f64
  | _, _ => none

theorem product_u8 : product u8 .i32 = some i32 := rfl

theorem product_closed {p : PixelKind} {k : CoeffKind} {q : PixelKind}
    (h : p.product k = some q) : q.product k = some q := by
  cases p <;> cases k <;> simp [product] at h <;> subst h <;> rfl

/-- The product of a pixel and a coefficient; the pixel is first converted to the kind of the
product. -/
def scale : {p : PixelKind} → {k : CoeffKind} → {q : PixelKind} → p.product k = some q →
    p.Value → k.Value → Check q.Value
  | u8, .i32, i32, _, (v : UInt8), (c : Int32) => Integer32.mul (Int32.ofNat v.toNat) c
  | u16, .i32, i32, _, (v : UInt16), (c : Int32) => Integer32.mul (Int32.ofNat v.toNat) c
  | i16, .i32, i32, _, (v : Int16), (c : Int32) => Integer32.mul v.toInt32 c
  | i32, .i32, i32, _, (v : Int32), (c : Int32) => Integer32.mul v c
  | u8, .f32, f32, _, (v : UInt8), (c : Float32) => .ok (v.toFloat32 * c)
  | u16, .f32, f32, _, (v : UInt16), (c : Float32) => .ok (v.toFloat32 * c)
  | i16, .f32, f32, _, (v : Int16), (c : Float32) => .ok (v.toFloat32 * c)
  | f32, .f32, f32, _, (v : Float32), (c : Float32) => .ok (v * c)
  | u8, .f64, f64, _, (v : UInt8), (c : Float) => .ok (v.toFloat * c)
  | u16, .f64, f64, _, (v : UInt16), (c : Float) => .ok (v.toFloat * c)
  | i16, .f64, f64, _, (v : Int16), (c : Float) => .ok (v.toFloat * c)
  | i32, .f64, f64, _, (v : Int32), (c : Float) => .ok (v.toFloat * c)
  | f32, .f64, f64, _, (v : Float32), (c : Float) => .ok (v.toFloat * c)
  | f64, .f64, f64, _, (v : Float), (c : Float) => .ok (v * c)

/-- Sums are formed in the kinds that products have. The narrow integers have none, and adding
them faults. -/
def add : {p : PixelKind} → p.Value → p.Value → Check p.Value
  | i32, (a : Int32), (b : Int32) => Integer32.add a b
  | f32, (a : Float32), (b : Float32) => .ok (a + b)
  | f64, (a : Float), (b : Float) => .ok (a + b)
  | u8, _, _ | u16, _, _ | i16, _, _ => .error .pixelOverflow

end PixelKind

namespace CoeffKind

def times : {k : CoeffKind} → k.Value → k.Value → Check k.Value
  | i32, (a : Int32), (b : Int32) => Integer32.mul a b
  | f32, (a : Float32), (b : Float32) => .ok (a * b)
  | f64, (a : Float), (b : Float) => .ok (a * b)

end CoeffKind

def Arithmetic.standard : Arithmetic where
  Pixel := PixelKind
  Coeff := CoeffKind
  Value := PixelKind.Value
  Factor := CoeffKind.Value
  storage p :=
    { blank := p.zero
      bytes := p.bytes
      align := p.bytes
      bytes_pos := p.bytes_pos
      align_dvd := Nat.dvd_refl _ }
  product := PixelKind.product
  product_closed := PixelKind.product_closed
  scale := PixelKind.scale
  validate v := v
  add := PixelKind.add
  one := CoeffKind.one
  times := CoeffKind.times

theorem Arithmetic.standard_unflagged : Arithmetic.standard.Unflagged := fun _ _ => rfl

end ImageViews
