import ImageViews.Pixel.Standard

/-!
# Pixel casts

A cast converts a computed pixel into another kind. Integer results saturate at the ends of their
range, and floating point sources are first rounded to the nearest integer, halves away from zero;
a NaN becomes zero. Every kind casts to itself unchanged.
-/
namespace ImageViews.PixelKind

def saturate (low high i : Int) : Int := max low (min i high)

/-- The cast from one kind to another, where there is one. -/
def cast? : (source target : PixelKind) → Option (source.Value → target.Value)
  | u8, u8 => some id
  | u16, u16 => some id
  | i16, i16 => some id
  | i32, i32 => some id
  | f32, f32 => some id
  | f64, f64 => some id
  | f32, u8 => some fun (v : Float32) => v.round.toUInt8
  | f32, u16 => some fun (v : Float32) => v.round.toUInt16
  | f32, i16 => some fun (v : Float32) => v.round.toInt16
  | f64, u8 => some fun (v : Float) => v.round.toUInt8
  | f64, u16 => some fun (v : Float) => v.round.toUInt16
  | f64, i16 => some fun (v : Float) => v.round.toInt16
  | i32, u8 => some fun (v : Int32) => UInt8.ofNat (saturate 0 255 v.toInt).toNat
  | i32, u16 => some fun (v : Int32) => UInt16.ofNat (saturate 0 65535 v.toInt).toNat
  | i32, i16 => some fun (v : Int32) => Int16.ofInt (saturate (-32768) 32767 v.toInt)
  | i32, f32 => some fun (v : Int32) => v.toFloat32
  | f64, f32 => some fun (v : Float) => v.toFloat32
  | f32, f64 => some fun (v : Float32) => v.toFloat
  | _, _ => none

end ImageViews.PixelKind
