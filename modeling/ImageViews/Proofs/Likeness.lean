import ImageViews.Correlation
import ImageViews.Proofs.Linked
import ImageViews.Sampler.Convolution

/-!
# Samplers in step

Values of the same kinds of pixels may be kept in another way, as long as every operation on them
follows the one it stands for. Two samplers, the second one of the selected planes of the first, are
in step when the first carries over to the second at every pixel, asked for by its coordinates or
reached by a cursor. All ways to make samplers from samplers keep them in step.
-/
namespace ImageViews

/-- Values over the kinds of pixels of `A` whose operations follow those of `A`. -/
structure Likeness (A : Arithmetic) where
  Value : A.Pixel → Type
  storage : (p : A.Pixel) → Storage (Value p)
  scale : {p : A.Pixel} → {k : A.Coeff} → {q : A.Pixel} → A.product p k = some q →
    Value p → A.Factor k → Check (Value q)
  validate : {p : A.Pixel} → Value p → Value p
  add : {p : A.Pixel} → Value p → Value p → Check (Value p)
  /-- The value stands for the one of `A`. -/
  Alike : {p : A.Pixel} → Value p → A.Value p → Prop
  bytes_le : ∀ p, (A.storage p).bytes ≤ (storage p).bytes
  blank_alike : ∀ p, Alike (storage p).blank (A.blank p)
  start_alike : ∀ p, Alike (validate (storage p).blank) (A.start p)
  scale_alike : ∀ {p : A.Pixel} {k : A.Coeff} {q : A.Pixel} (h : A.product p k = some q)
    {a : Value p} {b : A.Value p} (coeff : A.Factor k) (T : Fault → Prop), Alike a b →
    (scale h a coeff).Carries T (A.scale h b coeff) Alike
  add_alike : ∀ {p : A.Pixel} {a a' : Value p} {b b' : A.Value p} (T : Fault → Prop), Alike a b →
    Alike a' b' → (add a a').Carries T (A.add b b') Alike

/-- The arithmetic of the values. -/
abbrev Likeness.arithmetic {A : Arithmetic} (L : Likeness A) : Arithmetic where
  Pixel := A.Pixel
  Coeff := A.Coeff
  Value := L.Value
  Factor := A.Factor
  storage := L.storage
  product := A.product
  product_closed := A.product_closed
  scale := L.scale
  validate := L.validate
  add := L.add
  one := A.one
  times := A.times

/-- Values are like themselves. -/
def Likeness.same (A : Arithmetic) : Likeness A where
  Value := A.Value
  storage := A.storage
  scale := A.scale
  validate := A.validate
  add := A.add
  Alike := Eq
  bytes_le _ := Nat.le_refl _
  blank_alike _ := rfl
  start_alike _ := rfl
  scale_alike _ _ _ _ _ alike := by
    subst alike
    exact .same _
  add_alike T alike alike' := by
    subst alike alike'
    exact .same _

/-- How two evaluations are compared: on which planes, and up to which faults of the first. -/
structure Pace where
  sel : Selection
  Excused : Fault → Prop
  room : sel.Room Excused

variable {σ τ α β : Type} {K : Pace} {S : σ → τ → Prop} {T : Fault → Prop}

/-- All planes are compared. -/
def Pace.whole (T : Fault → Prop) : Pace where
  sel := .all
  Excused := T
  room := .inl rfl

theorem Pace.whole_nth (i : Nat) : (Pace.whole T).sel.nth i = i :=
  (Pace.whole T).sel.nth_of_one rfl i

theorem Pace.whole_mul (k : Nat) : (Pace.whole T).sel.step * k = k := Nat.one_mul k

/-- Cells are compared one by one. -/
theorem Pace.whole_chosen {f : α → β} {xs : Array α} {ys : Array β} :
    (Pace.whole T).sel.Chosen (fun a b => f a = b) xs ys ↔ xs.map f = ys := by
  constructor
  · intro chosen
    have size := chosen.size_eq
    rw [whole_mul] at size
    refine Array.ext (by simpa using size) fun i hi hi' => ?_
    rw [Array.getElem_map]
    apply chosen.alike (i := i) _ (Array.getElem?_eq_getElem hi')
    rw [whole_nth]
    exact Array.getElem?_eq_getElem _
  · rintro rfl
    refine ⟨by simp [whole_mul], fun {i a b} ha hb => ?_⟩
    rw [whole_nth] at ha
    rw [Array.getElem?_map, ha] at hb
    exact Option.some.inj hb

namespace Sampler

/-- Cursors that keep pace, and give pixels that are alike where they meet. -/
structure Cursors (K : Pace) (S : σ → τ → Prop) (Alike : α → β → Prop) (s : Sampler σ α)
    (t : Sampler τ β) : Prop where
  scaled : Addressing.Scaled K.sel t.planes s.addressing t.addressing
  origin : s.origin.Carries K.Excused t.origin (Addressing.Level K.sel s.addressing t.addressing)
  read : ∀ place place', Addressing.Meets K.sel t.planes s.addressing t.addressing place place' →
    Carries S K.Excused (s.read place) (t.read place') Alike

/-- No cursor ever gives a pixel. -/
def Dead (s : Sampler σ α) : Prop :=
  ∀ place st, Yields Lenient (s.read place) st fun _ _ => False

/-- The second sampler shows the selected planes of the first, pixel by pixel. -/
structure InStep (K : Pace) (S : σ → τ → Prop) (Alike : α → β → Prop) (s : Sampler σ α)
    (t : Sampler τ β) : Prop where
  cols_eq : s.cols = t.cols
  rows_eq : s.rows = t.rows
  planes_eq : s.planes = K.sel.step * t.planes
  get : ∀ x y {i}, K.sel.Names t.planes i →
    Carries S K.Excused (s.get x y (K.sel.nth i)) (t.get x y i) Alike
  cursors : Cursors K S Alike s t ∨ Tolerant K.Excused ∧ s.Dead

section Access

variable {Alike : α → β → Prop} {s : Sampler σ α} {t : Sampler τ β}

theorem Cursors.place_level (h : Cursors K S Alike s t) (x y : Int) :
    (s.place x y 0).Carries K.Excused (t.place x y 0)
      (Addressing.Level K.sel s.addressing t.addressing) := by
  apply Check.Carries.bind h.origin
  intro place place' level
  exact Addressing.advance_level K.room h.scaled level x y

theorem Cursors.place_meets (h : Cursors K S Alike s t) (x y : Int) {i : Nat}
    (hi : K.sel.Names t.planes i) :
    (s.place x y (Coordinate.ofExtent (K.sel.nth i))).Carries K.Excused
      (t.place x y (Coordinate.ofExtent i))
      (Addressing.Meets K.sel t.planes s.addressing t.addressing) := by
  apply Check.Carries.bind h.origin
  intro place place' level
  exact Addressing.advance_meets K.room h.scaled level x y hi

section Computed

variable {cols rows planes planes' : Nat} {get : Int → Int → Nat → Probe σ α}
  {get' : Int → Int → Nat → Probe τ β}
  (h : ∀ x y {i}, K.sel.Names planes' i →
    Carries S K.Excused (get x y (K.sel.nth i)) (get' x y i) Alike)
include h

theorem computed_cursors :
    Cursors K S Alike (computed cols rows planes get) (computed cols rows planes' get') where
  scaled := trivial
  origin := .ok ⟨⟨rfl, rfl⟩, rfl, rfl⟩
  read := by
    rintro (place : Position) (place' : Position) ⟨⟨x, y⟩, p, names⟩
    have alike := h place.x place.y names
    rw [← p] at alike
    change Carries S K.Excused (get place.x place.y _) (get' place'.x place'.y _) Alike
    rwa [← x, ← y]

/-- Pixels computed alike. -/
theorem computed_inStep (planes_eq : planes = K.sel.step * planes') :
    InStep K S Alike (computed cols rows planes get) (computed cols rows planes' get') where
  cols_eq := rfl
  rows_eq := rfl
  planes_eq := planes_eq
  get := h
  cursors := .inl (computed_cursors h)

end Computed

theorem InStep.crop (h : InStep K S Alike s t) (x0 y0 : Int) (cols rows : Nat) :
    InStep K S Alike (s.crop x0 y0 cols rows) (t.crop x0 y0 cols rows) where
  cols_eq := rfl
  rows_eq := rfl
  planes_eq := h.planes_eq
  get x y i names := by
    apply Carries.bind (.probe_check (.same _))
    rintro x _ rfl
    apply Carries.bind (.probe_check (.same _))
    rintro y _ rfl
    exact h.get x y names
  cursors := h.cursors.imp_left fun cursors =>
    ⟨cursors.scaled, cursors.place_level x0 y0, cursors.read⟩

theorem InStep.pixel (h : InStep K S Alike s t) (border : Border) {blank : α} {blank' : β}
    (alike : Alike blank blank') (x y : Int) {i : Nat} (names : K.sel.Names t.planes i) :
    Carries S K.Excused (border.pixel s blank x y (K.sel.nth i)) (border.pixel t blank' x y i)
      Alike := by
  unfold Border.pixel
  rw [h.cols_eq, h.rows_eq]
  split
  · exact h.get x y names
  split
  · exact .pure alike
  apply Carries.bind (.probe_check (.same _))
  rintro column _ rfl
  apply Carries.bind (.probe_check (.same _))
  rintro row _ rfl
  exact h.get _ _ names

theorem InStep.extend (h : InStep K S Alike s t) (border : Border) {blank : α} {blank' : β}
    (alike : Alike blank blank') :
    InStep K S Alike (s.extend border blank) (t.extend border blank') := by
  unfold Sampler.extend
  rw [h.cols_eq, h.rows_eq]
  exact computed_inStep (h.pixel border alike) h.planes_eq

end Access

section Filters

variable {A : Arithmetic} {L : Likeness A} {p : A.Pixel} {k : A.Coeff} {q : A.Pixel}
  {s : Sampler σ (L.Value p)} {t : Sampler τ (A.Value p)}

theorem Cursors.correlateRow (cursors : Cursors K S L.Alike s t) (h : A.product p k = some q)
    (factor : List (A.Factor k)) {place : s.addressing.Place} {place' : t.addressing.Place}
    (meets : Addressing.Meets K.sel t.planes s.addressing t.addressing place place')
    {sum : L.Value q} {sum' : A.Value q} (alike : L.Alike sum sum') :
    Carries S K.Excused (correlateRow (A := L.arithmetic) s h factor place sum)
      (t.correlateRow h factor place' sum') L.Alike := by
  have first := K.sel.first_lt
  induction factor generalizing place place' sum sum' with
  | nil => exact .pure alike
  | cons coeff coeffs ih =>
    apply Carries.bind (cursors.read place place' meets)
    intro pixel pixel' hpixel
    apply Carries.bind (.probe_check (L.scale_alike h coeff K.Excused hpixel))
    intro product product' hproduct
    apply Carries.bind (.probe_check (L.add_alike K.Excused alike hproduct))
    intro sum sum' hsum
    apply Carries.bind (.probe_check
      (Addressing.nextCol_carries K.room cursors.scaled meets (by omega) (by omega)))
    intro place place' meets
    exact ih meets hsum

theorem Cursors.correlate2d (cursors : Cursors K S L.Alike s t) (h : A.product p k = some q)
    (kernel : Kernel (A.Factor k)) (orientation : Orientation) {place : s.addressing.Place}
    {place' : t.addressing.Place}
    (meets : Addressing.Meets K.sel t.planes s.addressing t.addressing place place') :
    Carries S K.Excused (correlate2d (A := L.arithmetic) s h kernel orientation place)
      (t.correlate2d h kernel orientation place') L.Alike := by
  have first := K.sel.first_lt
  -- the cursors of the kernels are at the same coefficient
  let Beside (place : s.addressing.Place × Int) (place' : t.addressing.Place × Int) : Prop :=
    Addressing.Meets K.sel t.planes s.addressing t.addressing place.1 place'.1 ∧
      place.2 = place'.2
  refine Carries.sweep (P := Beside) (fun _ _ _ place place' sum sum' beside alike => ?_)
    (fun place place' beside => ?_) ⟨meets, rfl⟩ (L.start_alike q)
  · refine Carries.sweep (P := Beside) (fun _ _ _ place place' sum sum' beside alike => ?_)
      (fun place place' beside => ?_) beside alike
    · apply Carries.bind (cursors.read _ _ beside.1)
      intro pixel pixel' hpixel
      rw [beside.2]
      apply Carries.bind (.probe_check (.same _))
      rintro coeff _ rfl
      apply Carries.bind (.probe_check (L.scale_alike h coeff K.Excused hpixel))
      intro product product' hproduct
      exact .probe_check (L.add_alike K.Excused alike hproduct)
    · apply Carries.probe_check
      apply Check.Carries.bind
        (Addressing.nextCol_carries K.room cursors.scaled beside.1 (by omega) (by omega))
      intro moved moved' meets
      rw [beside.2]
      apply Check.Carries.bind (.same _)
      rintro coeff _ rfl
      exact .ok ⟨meets, rfl⟩
  · apply Carries.probe_check
    apply Check.Carries.bind
      (Addressing.nextRow_carries K.room cursors.scaled beside.1 (by omega) (by omega))
    intro moved moved' meets
    rw [beside.2]
    apply Check.Carries.bind (.same _)
    rintro coeff _ rfl
    exact .ok ⟨meets, rfl⟩

/-- A window has a first pixel. -/
theorem Dead.correlateWindow (dead : s.Dead) (h : A.product p k = some q)
    (kernel : Kernel (A.Factor k)) (before : Int × Int) (x y : Int) (plane : Nat) (st : σ) :
    Yields Lenient (correlateWindow (A := L.arithmetic) s h kernel before x y plane) st
      fun _ _ => False := by
  have any {γ : Type} (c : Check γ) (st : σ) : Yields Lenient (liftM c : Probe σ γ) st
      fun _ _ => True := .probe_check (.of_tolerable (fun _ _ => trivial) fun _ _ => trivial)
  obtain ⟨cols, hcols⟩ := Nat.exists_eq_succ_of_ne_zero (Nat.ne_of_gt kernel.cols_pos)
  obtain ⟨rows, hrows⟩ := Nat.exists_eq_succ_of_ne_zero (Nat.ne_of_gt kernel.rows_pos)
  apply Yields.bind
  apply (any _ st).mono
  intro left st _
  apply Yields.bind
  apply (any _ st).mono
  intro top st _
  apply Yields.bind
  apply (any _ st).mono
  intro place st _
  unfold correlate2d addLine
  rw [hrows]
  apply Yields.bind
  rw [hcols]
  apply Yields.bind
  apply Yields.bind
  exact (dead _ st).mono fun _ _ => False.elim

theorem InStep.correlateWindow (inStep : InStep K S L.Alike s t) (h : A.product p k = some q)
    (kernel : Kernel (A.Factor k)) (before : Int × Int) (x y : Int) {i : Nat}
    (names : K.sel.Names t.planes i) :
    Carries S K.Excused
      (correlateWindow (A := L.arithmetic) s h kernel before x y (K.sel.nth i))
      (t.correlateWindow h kernel before x y i) L.Alike := by
  rcases inStep.cursors with cursors | ⟨tolerant, dead⟩
  · apply Carries.bind (.probe_check (.same _))
    rintro left _ rfl
    apply Carries.bind (.probe_check (.same _))
    rintro top _ rfl
    apply Carries.bind (.probe_check (cursors.place_meets left top names))
    intro place place' meets
    exact cursors.correlate2d h kernel .rotated meets
  · exact .of_fails tolerant fun st _ _ => dead.correlateWindow h kernel before x y _ st

theorem InStep.convolveAt (inStep : InStep K S L.Alike s t) (h : A.product p k = some q)
    (kernel : Kernel (A.Factor k)) {cols rows : Nat} (anchor : Anchor cols rows)
    (border : Option Border) (x y : Int) {i : Nat} (names : K.sel.Names t.planes i) :
    Carries S K.Excused
      (convolveAt (A := L.arithmetic) s h kernel anchor border x y (K.sel.nth i))
      (t.convolveAt h kernel anchor border x y i) L.Alike := by
  unfold Sampler.convolveAt Sampler.covers
  rw [inStep.cols_eq, inStep.rows_eq]
  apply Carries.bind (.probe_check (.same _))
  rintro inside _ rfl
  cases border with
  | none => exact inStep.correlateWindow h kernel _ x y names
  | some border =>
    cases inside with
    | true => exact inStep.correlateWindow h kernel _ x y names
    | false =>
      exact (inStep.extend border (L.blank_alike p)).correlateWindow h kernel _ x y names

theorem InStep.convolve (inStep : InStep K S L.Alike s t) (h : A.product p k = some q)
    (kernel : Kernel (A.Factor k)) (anchor : Anchor kernel.cols kernel.rows)
    (border : Option Border) :
    InStep K S L.Alike (convolve (A := L.arithmetic) s h kernel anchor border)
      (t.convolve h kernel anchor border) := by
  unfold Sampler.convolve
  rw [inStep.cols_eq, inStep.rows_eq]
  exact computed_inStep (inStep.convolveAt h kernel anchor border) inStep.planes_eq

end Filters

end Sampler

end ImageViews
