import ImageViews.Proofs.Readings

/-!
# Integer pixels

Coefficients of 32 bits make integer arithmetic exact: a product or a sum that does not fault has
the value of the product or the sum in the integers. A mask adds the conjunction of the validities,
which scaling leaves alone.
-/
namespace ImageViews

/-- Coefficients that form integer products, with plain pixels or with masked ones. -/
inductive Arithmetic.Integral : (A : Arithmetic) → A.Coeff → Prop
  | plain : Integral .standard CoeffKind.i32
  | masked : Integral Arithmetic.standard.masked CoeffKind.i32

namespace Integer32

theorem checked_eq_ok {i : ℤ} {w : Int32} (h : checked i = .ok w) : w.toInt = i := by
  unfold checked at h
  split at h
  next range =>
    obtain rfl := Except.ok.inj h
    exact Int32.toInt_ofInt_of_le (by omega) (by omega)
  next => cases h

end Integer32

namespace PixelKind

/-- An integer pixel as a number. -/
def toInt : {p : PixelKind} → p.Value → ℤ
  | u8, (v : UInt8) => v.toNat
  | u16, (v : UInt16) => v.toNat
  | i16, (v : Int16) => v.toInt
  | i32, (v : Int32) => v.toInt
  | f32, _ | f64, _ => 0

/-- An integer product has the kind of 32 bits. -/
theorem product_i32 {p q : PixelKind} (h : p.product .i32 = some q) : q = i32 := by
  cases p <;> simp [product] at h <;> exact h.symm

/-- The product of an integer pixel is that of its number, if it fits. -/
theorem scale_eq_checked {p : PixelKind} {v : p.Value} {c : Int32}
    (h : p.product .i32 = some i32) :
    PixelKind.scale h v c = Integer32.checked (c.toInt * toInt v) := by
  match p, v with
  | u8, (v : UInt8) =>
    have lt := v.toNat_lt
    change Integer32.checked ((Int32.ofNat v.toNat).toInt * c.toInt) = _
    rw [Int32.toInt_ofNat_of_lt (by omega), mul_comm]
    rfl
  | u16, (v : UInt16) =>
    have lt := v.toNat_lt
    change Integer32.checked ((Int32.ofNat v.toNat).toInt * c.toInt) = _
    rw [Int32.toInt_ofNat_of_lt (by omega), mul_comm]
    rfl
  | i16, (v : Int16) =>
    change Integer32.checked (v.toInt32.toInt * c.toInt) = _
    rw [Int16.toInt_toInt32, mul_comm]
    rfl
  | i32, (v : Int32) =>
    change Integer32.checked (v.toInt * c.toInt) = _
    rw [mul_comm]
    rfl
  | f32, _ | f64, _ => cases h

theorem toInt_scale {p : PixelKind} {v : p.Value} {c w : Int32} (h : p.product .i32 = some i32)
    (hw : PixelKind.scale h v c = .ok w) : w.toInt = c.toInt * toInt v := by
  rw [scale_eq_checked h] at hw
  exact Integer32.checked_eq_ok hw

end PixelKind

/-- Standard pixels as integers. -/
def Reading.integer : Reading .standard CoeffKind.i32 ℤ where
  pixel := PixelKind.toInt
  coeff (c : Int32) := c.toInt
  scale {p q} h v c w hw := by
    obtain rfl := PixelKind.product_i32 h
    exact PixelKind.toInt_scale h hw
  add {p q} h a b s hs := by
    obtain rfl := PixelKind.product_i32 h
    exact Integer32.checked_eq_ok hs
  start {p q} h := by
    obtain rfl := PixelKind.product_i32 h
    rfl
  one := rfl
  times h := Integer32.checked_eq_ok h
  injective {p q} h a b same := by
    obtain rfl := PixelKind.product_i32 h
    exact Int32.toInt_inj.1 same

/-- The validity of a sum, which holds when that of every term does. -/
structure Trust where
  holds : Bool

namespace Trust

instance : Zero Trust where
  zero := { holds := true }

instance : Add Trust where
  add a b := { holds := a.holds && b.holds }

instance : AddCommMonoid Trust where
  add_assoc a b c := congrArg Trust.mk (Bool.and_assoc ..)
  zero_add _ := congrArg Trust.mk (Bool.true_and _)
  add_zero _ := congrArg Trust.mk (Bool.and_true _)
  add_comm a b := congrArg Trust.mk (Bool.and_comm ..)
  nsmul := nsmulRec

/-- Scaling leaves the validity alone. -/
instance : DistribMulAction ℤ Trust where
  smul _ a := a
  one_smul _ := rfl
  mul_smul _ _ _ := rfl
  smul_zero _ := rfl
  smul_add _ _ _ := rfl

end Trust

/-- Masked pixels next to their validity. -/
def Reading.masked {A : Arithmetic} (unflagged : A.Unflagged) {k : A.Coeff} {M : Type}
    [AddCommMonoid M] [DistribMulAction ℤ M] (R : Reading A k M) :
    Reading A.masked k (M × Trust) where
  pixel {p} (m : Masked (A.Value p)) := (R.pixel m.value, { holds := m.valid })
  coeff := R.coeff
  scale {p q} h v c w hw := by
    obtain ⟨product, hproduct, made⟩ := Check.bind_eq_ok.1 hw
    obtain rfl := Except.ok.inj made
    exact congrArg (·, Trust.mk v.valid) (R.scale h hproduct)
  add {p q} h a b s hs := by
    obtain ⟨sum, hsum, made⟩ := Check.bind_eq_ok.1 hs
    obtain rfl := Except.ok.inj made
    exact congrArg (·, Trust.mk (a.valid && b.valid)) (R.add h hsum)
  start {p q} h := by
    have blank : R.pixel (A.blank q) = 0 := unflagged q (A.blank q) ▸ R.start h
    exact congrArg (·, Trust.mk true) blank
  one := R.one
  times h := R.times h
  injective {p q} h (a b : Masked (A.Value q)) same := by
    obtain ⟨value, valid⟩ := Prod.mk.inj same
    cases a
    cases b
    exact congrArg₂ Masked.mk (R.injective h value) (Trust.mk.inj valid)

/-- Integer arithmetic is exact. -/
theorem Arithmetic.Integral.exact {A : Arithmetic} {k : A.Coeff} (h : A.Integral k) :
    ∃ (M : Type) (_ : AddCommMonoid M) (_ : DistribMulAction ℤ M), Nonempty (Reading A k M) := by
  cases h with
  | plain => exact ⟨ℤ, inferInstance, inferInstance, ⟨.integer⟩⟩
  | masked =>
    exact ⟨ℤ × Trust, inferInstance, inferInstance,
      ⟨Reading.integer.masked Arithmetic.standard_unflagged⟩⟩

end ImageViews
