import ImageViews.Proofs.Calm
import ImageViews.Proofs.Spatial

/-!
# Pixels with a property

A sampler gives pixels with a property when every pixel that it reads at all has it. Crops and
borders read no other pixels than those of their source, and the blank one, so they pass the
property on. A filter gives pixels with another property. What has to be known of the arithmetic
for this is which sums come about when products with the coefficients are added, one after the
other, whatever the pixels with the first property are.
-/
namespace ImageViews

variable {α β σ π ε : Type} {E : Fault → Prop}

/-- All spatial faults are tolerated. -/
def Lax (E : Fault → Prop) : Prop := ∀ fault, Fault.Spatial fault → E fault

theorem Lax.yields (lax : Lax E) {check : Check α} (h : check.Spatial) :
    check.Yields E fun _ => True :=
  .of_tolerable (fun fault raised => lax fault (h fault raised)) fun _ _ => trivial

/-- Before a spatial check nothing is known of its value. -/
theorem Lax.probe_bind (lax : Lax E) {check : Check α} (h : check.Spatial)
    {f : α → Probe σ β} {st : σ} {Q : β → σ → Prop} (hf : ∀ a, Yields E (f a) st Q) :
    Yields E ((liftM check : Probe σ α) >>= f) st Q :=
  Yields.bind (Yields.probe_check ((lax.yields h).mono fun a _ => hf a))

/-- What a visit and the step after it carry from one place to the next holds after the last
visit. -/
theorem sweep_keeps {step : π → Check π} {E : ε → Prop}
    [MonadLiftT Check (ExceptT ε (StateM σ))] {visit : Nat → π → β → ExceptT ε (StateM σ) β}
    {R : Nat → π → β → σ → Prop} {k i : Nat} {place : π} {acc : β} {st : σ}
    (hvisit : ∀ j place acc st, j < i + k → R j place acc st →
      Yields E (visit j place acc) st fun acc' st' =>
        Yields E (liftM (step place) : ExceptT ε (StateM σ) π) st' fun place' st'' =>
          R (j + 1) place' acc' st'')
    (h : R i place acc st) :
    Yields E (sweep step visit k i place acc) st fun acc' st' =>
      ∃ place', R (i + k) place' acc' st' := by
  induction k generalizing i place acc st with
  | zero => exact Yields.pure ⟨place, h⟩
  | succ k ih =>
    apply Yields.bind
    apply (hvisit i place acc st (by omega) h).mono
    intro acc' st' moved
    apply Yields.bind
    apply moved.mono
    intro place' st'' h'
    have rest := ih (fun j place acc st hj => hvisit j place acc st (by omega)) h'
    rwa [Nat.add_right_comm, Nat.add_assoc] at rest

section Sums

variable {A : Arithmetic} {p : A.Pixel} {k : A.Coeff} {q : A.Pixel}

/-- Whatever pixels with the property `P` are multiplied by the coefficients, in order, adding the
products to the sum gives a sum with the property `Q`, or faults in a tolerated way. -/
def Sums (E : Fault → Prop) (P : A.Value p → Prop) (Q : A.Value q → Prop)
    (h : A.product p k = some q) : List (A.Factor k) → A.Value q → Prop
  | [], sum => Q sum
  | coeff :: coeffs, sum => ∀ pixel, P pixel → (A.scale h pixel coeff).Yields E fun product =>
      (A.add sum product).Yields E (Sums E P Q h coeffs)

/-- The coefficients in the order in which a convolution reads them. -/
def Kernel.reading {κ : Type} (kernel : Kernel κ) : List κ := kernel.coeffs.toList.reverse

theorem Kernel.length_reading {κ : Type} (kernel : Kernel κ) :
    kernel.reading.length = kernel.rows * kernel.cols := by
  rw [reading, List.length_reverse, Array.length_toList, kernel.size_coeffs, Nat.mul_comm]

/-- The next coefficient that is read, and those that are left. -/
theorem Kernel.drop_reading {κ : Type} {kernel : Kernel κ} {i j : Nat} (hi : i < kernel.cols)
    (hj : j < kernel.rows) : ∃ coeff, kernel.turned i j = .ok coeff ∧
      kernel.reading.drop (j * kernel.cols + i) =
        coeff :: kernel.reading.drop (j * kernel.cols + (i + 1)) := by
  obtain ⟨offset, turned⟩ := Kernel.turned_eq hi hj
  have inside : j * kernel.cols + i < kernel.reading.length := by
    simpa [reading] using offset
  refine ⟨_, turned.trans (fetchCell_of_lt (by omega)), ?_⟩
  rw [List.drop_eq_getElem_cons inside]
  simp [reading, Nat.add_assoc]

end Sums

namespace Sampler

/-- The pixels of the sampler have the property `P`, and reading them keeps the property `I` of the
state, at all coordinates and at every place of a cursor. -/
structure Gives (E : Fault → Prop) (I : σ → Prop) (P : α → Prop) (s : Sampler σ α) : Prop where
  origin : s.origin.Spatial
  get : ∀ x y plane st, I st → Yields E (s.get x y plane) st fun a st' => I st' ∧ P a
  read : ∀ place st, I st → Yields E (s.read place) st fun a st' => I st' ∧ P a

variable {I : σ → Prop} {P : α → Prop} {s : Sampler σ α} (lax : Lax E)

include lax in
theorem fetchCell_gives {cells : Array α} (h : ∀ a ∈ cells, P a) (i : Nat) :
    (fetchCell cells i).Yields E P := by
  refine .of_tolerable (fun fault raised => lax fault (fetchCell_spatial cells i fault raised)) ?_
  intro a ha
  unfold fetchCell at ha
  split at ha
  next inside =>
    obtain rfl := Except.ok.inj ha
    exact h _ (Array.getElem_mem inside)
  next => cases ha

theorem computed_gives {cols rows planes : Nat} {get : Int → Int → Nat → Probe σ α}
    (h : ∀ x y plane st, I st → Yields E (get x y plane) st fun a st' => I st' ∧ P a) :
    (computed cols rows planes get).Gives E I P where
  origin := .ok _
  get := h
  read place := h place.x place.y (Extent.ofCoordinate place.p)

theorem Gives.place_spatial (h : s.Gives E I P) (x y p : Int) : (s.place x y p).Spatial :=
  .bind h.origin fun _ => s.addressing.advance_spatial _ _ _ _

include lax

theorem strided_gives {grid : Strided α} (h : ∀ a ∈ grid.cells, P a) :
    (strided grid : Sampler σ α).Gives E I P where
  origin := .ok _
  get x y plane st hst := by
    refine Yields.probe_check (Check.Yields.bind
      ((lax.yields (Coordinate.mul_spatial _ _)).mono ?_))
    intro dx _
    refine Check.Yields.bind ((lax.yields (Coordinate.mul_spatial _ _)).mono ?_)
    intro dy _
    refine Check.Yields.bind ((lax.yields (Coordinate.add_spatial _ _)).mono ?_)
    intro pixel _
    refine Check.Yields.bind ((lax.yields (Extent.add_spatial _ _)).mono ?_)
    intro offset _
    exact (fetchCell_gives lax h _).mono fun a ha => ⟨hst, ha⟩
  read place st hst := Yields.probe_check ((fetchCell_gives lax h _).mono fun a ha => ⟨hst, ha⟩)

/-- Fetching a pixel of an image, inside the image or not. -/
theorem fetch_gives {image : Image α} (h : ∀ a ∈ image.cells, P a) (x y plane : Nat) :
    (image.fetch x y plane).Yields E P := by
  refine Check.Yields.bind ((lax.yields (Extent.mul_spatial _ _)).mono ?_)
  intro line _
  refine Check.Yields.bind ((lax.yields (Extent.add_spatial _ _)).mono ?_)
  intro pixel _
  refine Check.Yields.bind ((lax.yields (Extent.mul_spatial _ _)).mono ?_)
  intro cell _
  refine Check.Yields.bind ((lax.yields (Extent.add_spatial _ _)).mono ?_)
  intro offset _
  exact fetchCell_gives lax h offset

theorem image_gives {image : Image α} (h : ∀ a ∈ image.cells, P a) :
    (Sampler.image image : Sampler σ α).Gives E I P where
  origin := .bind image.strided_spatial fun _ => .ok _
  get _ _ _ _ hst := Yields.probe_check ((fetch_gives lax h _ _ _).mono fun _ ha => ⟨hst, ha⟩)
  read _ _ hst := Yields.probe_check ((fetchCell_gives lax h _).mono fun _ ha => ⟨hst, ha⟩)

theorem Gives.crop (h : s.Gives E I P) (x0 y0 : Int) (cols rows : Nat) :
    (s.crop x0 y0 cols rows).Gives E I P where
  origin := h.place_spatial x0 y0 0
  get x y plane st hst := by
    apply lax.probe_bind (Coordinate.add_spatial x x0)
    intro u
    apply lax.probe_bind (Coordinate.add_spatial y y0)
    intro v
    exact h.get u v plane st hst
  read := h.read

theorem Gives.pixel (h : s.Gives E I P) (border : Border) {blank : α} (hblank : P blank)
    (x y : Int) (plane : Nat) (st : σ) (hst : I st) :
    Yields E (border.pixel s blank x y plane) st fun a st' => I st' ∧ P a := by
  unfold Border.pixel
  split
  · exact h.get x y plane st hst
  split
  · exact Yields.pure ⟨hst, hblank⟩
  apply lax.probe_bind (border.index_spatial x s.cols)
  intro column
  apply lax.probe_bind (border.index_spatial y s.rows)
  intro row
  exact h.get _ _ plane st hst

theorem Gives.extend (h : s.Gives E I P) (border : Border) {blank : α} (hblank : P blank) :
    (s.extend border blank).Gives E I P :=
  computed_gives (h.pixel lax border hblank)

section Filters

variable {A : Arithmetic} {p : A.Pixel} {k : A.Coeff} {q : A.Pixel} {P : A.Value p → Prop}
  {Q : A.Value q → Prop} {s : Sampler σ (A.Value p)} {hq : A.product p k = some q}
  {kernel : Kernel (A.Factor k)}

theorem Gives.correlateRow (h : s.Gives E I P) {coeffs : List (A.Factor k)}
    (place : s.addressing.Place) {sum : A.Value q} (sums : Sums E P Q hq coeffs sum) {st : σ}
    (hst : I st) :
    Yields E (s.correlateRow hq coeffs place sum) st fun a st' => I st' ∧ Q a := by
  induction coeffs generalizing place sum st with
  | nil => exact Yields.pure ⟨hst, sums⟩
  | cons coeff coeffs ih =>
    apply Yields.bind
    apply (h.read place st hst).mono
    rintro pixel st' ⟨hst', hpixel⟩
    refine Yields.bind (Yields.probe_check ((sums pixel hpixel).mono ?_))
    intro product hproduct
    refine Yields.bind (Yields.probe_check (hproduct.mono ?_))
    intro sum' sums'
    apply lax.probe_bind (s.addressing.nextCol_spatial place)
    intro place'
    exact ih place' sums' hst'

/-- The cursor of the kernel is at the coefficient in column `i` of the line `j`, and the sum can
be carried on with those that are left. -/
structure Ahead (E : Fault → Prop) (I : σ → Prop) (P : A.Value p → Prop) (Q : A.Value q → Prop)
    (hq : A.product p k = some q) (kernel : Kernel (A.Factor k)) (i j : Nat)
    (place : s.WindowPlace) (sum : A.Value q) (st : σ) : Prop where
  offset : place.2 = kernel.start .rotated - (j * kernel.cols + i : Nat)
  sums : Sums E P Q hq (kernel.reading.drop (j * kernel.cols + i)) sum
  state : I st

/-- Both cursors are moved, that of the kernel by `distance`. -/
theorem cursors_yield {step : s.addressing.Place → Check s.addressing.Place}
    (spatial : ∀ place, (step place).Spatial) (place : s.WindowPlace) (distance : Int) :
    Check.Yields E (do return (← step place.1, ← Coordinate.add place.2 distance))
      fun next : s.WindowPlace => next.2 = place.2 + distance := by
  refine Check.Yields.bind ((lax.yields (spatial place.1)).mono ?_)
  intro moved _
  refine Check.Yields.bind (.of_tolerable ?_ ?_)
  · exact fun fault raised => lax fault (Coordinate.add_spatial _ _ fault raised)
  · intro offset made
    exact (Coordinate.checked_eq_ok.1 made).2.symm

omit lax in
theorem Gives.addTerm (h : s.Gives E I P) {i j : Nat} (hi : i < kernel.cols) (hj : j < kernel.rows)
    {place : s.WindowPlace} {sum : A.Value q} {st : σ}
    (ahead : s.Ahead E I P Q hq kernel i j place sum st) :
    Yields E (s.addTerm hq kernel place sum) st fun sum' st' => I st' ∧
      Sums E P Q hq (kernel.reading.drop (j * kernel.cols + (i + 1))) sum' := by
  obtain ⟨offset, sums, hst⟩ := ahead
  obtain ⟨coeff, turned, rest⟩ := Kernel.drop_reading hi hj
  rw [rest] at sums
  apply Yields.bind
  apply (h.read place.1 st hst).mono
  rintro pixel st' ⟨hst', hpixel⟩
  have read : kernel.read place.2 = .ok coeff := by rw [offset]; exact turned
  rw [read]
  refine Yields.bind (Yields.probe_check (Check.Yields.ok ?_))
  refine Yields.bind (Yields.probe_check ((sums pixel hpixel).mono ?_))
  intro product hproduct
  exact Yields.probe_check (hproduct.mono fun _ sums' => ⟨hst', sums'⟩)

theorem Gives.addLine (h : s.Gives E I P) {j : Nat} (hj : j < kernel.rows)
    {place : s.WindowPlace} {sum : A.Value q} {st : σ}
    (ahead : s.Ahead E I P Q hq kernel 0 j place sum st) :
    Yields E (s.addLine hq kernel .rotated place sum) st fun sum' st' => I st' ∧
      Sums E P Q hq (kernel.reading.drop ((j + 1) * kernel.cols)) sum' := by
  refine (sweep_keeps (R := (s.Ahead E I P Q hq kernel · j)) (fun i place sum st hi ahead => ?_)
    ahead).mono ?_
  · apply (h.addTerm (by omega) hj ahead).mono
    rintro sum' st' ⟨hst', sums'⟩
    have moves := cursors_yield lax s.addressing.nextCol_spatial place (-1)
    refine Yields.probe_check (moves.mono ?_)
    intro next moved
    refine ⟨?_, sums', hst'⟩
    have := ahead.offset
    omega
  · rintro sum' st' ⟨-, -, sums', hst'⟩
    rw [Nat.zero_add, ← Nat.succ_mul] at sums'
    exact ⟨hst', sums'⟩

theorem Gives.correlate2d (h : s.Gives E I P)
    (sums : Sums E P Q hq kernel.reading (A.start q)) (place : s.addressing.Place) {st : σ}
    (hst : I st) :
    Yields E (s.correlate2d hq kernel .rotated place) st fun a st' => I st' ∧ Q a := by
  refine (sweep_keeps (R := s.Ahead E I P Q hq kernel 0) (fun j place sum st hj ahead => ?_)
    ⟨by simp, by simpa using sums, hst⟩).mono ?_
  · apply (h.addLine lax (by omega) ahead).mono
    rintro sum' st' ⟨hst', sums'⟩
    have moves :=
      cursors_yield lax s.addressing.nextRow_spatial place (-1 * kernel.cols)
    refine Yields.probe_check (moves.mono ?_)
    intro next moved
    refine ⟨?_, sums', hst'⟩
    have := ahead.offset
    have line : (j + 1) * kernel.cols = j * kernel.cols + kernel.cols := Nat.succ_mul _ _
    omega
  · rintro a st' ⟨-, -, sums', hst'⟩
    rw [List.drop_eq_nil_of_le (by simp [kernel.length_reading])] at sums'
    exact ⟨hst', sums'⟩

theorem Gives.correlateWindow (h : s.Gives E I P)
    (sums : Sums E P Q hq kernel.reading (A.start q)) (before : Int × Int) (x y : Int)
    (plane : Nat) {st : σ} (hst : I st) :
    Yields E (s.correlateWindow hq kernel before x y plane) st fun a st' => I st' ∧ Q a := by
  apply lax.probe_bind (Coordinate.sub_spatial x before.1)
  intro left
  apply lax.probe_bind (Coordinate.sub_spatial y before.2)
  intro top
  apply lax.probe_bind (h.place_spatial left top _)
  intro place
  exact h.correlate2d lax sums place hst

omit lax in
theorem covers_spatial (s : Sampler σ α) (kernelCols kernelRows : Nat) (before : Int × Int)
    (x y : Int) : (s.covers kernelCols kernelRows before x y).Spatial := by
  unfold covers
  split
  · exact .ok _
  refine .bind (Coordinate.sub_spatial _ _) fun _ => .bind (Coordinate.add_spatial _ _) fun _ => ?_
  split
  · exact .ok _
  · exact .bind (Coordinate.sub_spatial _ _) fun _ =>
      .bind (Coordinate.add_spatial _ _) fun _ => .ok _

theorem Gives.convolveAt (h : s.Gives E I P) (sums : Sums E P Q hq kernel.reading (A.start q))
    {cols rows : Nat} (anchor : Anchor cols rows) (border : Option Border)
    (hblank : border ≠ none → P (A.blank p)) (x y : Int) (plane : Nat) (st : σ) (hst : I st) :
    Yields E (s.convolveAt hq kernel anchor border x y plane) st fun a st' => I st' ∧ Q a := by
  apply lax.probe_bind (s.covers_spatial _ _ _ x y)
  intro inside
  split
  · exact (h.extend lax _ (hblank nofun)).correlateWindow lax sums _ x y plane hst
  · exact h.correlateWindow lax sums _ x y plane hst

theorem Gives.convolve (h : s.Gives E I P) (sums : Sums E P Q hq kernel.reading (A.start q))
    (anchor : Anchor kernel.cols kernel.rows) (border : Option Border)
    (hblank : border ≠ none → P (A.blank p)) : (s.convolve hq kernel anchor border).Gives E I Q :=
  computed_gives (h.convolveAt lax sums anchor border hblank)

end Filters

omit lax in
theorem Gives.besideSlot {μ ν : Type} {I : Trail μ → Prop} {s : Sampler (Trail μ) α}
    (h : s.Gives E I P) (K : ν → Prop) : (s.besideSlot (ν := ν)).Gives E (Beside K I) P where
  origin := h.origin
  get x y plane _ hst := besideSlot_yields hst.1 (h.get x y plane _ hst.2)
  read place _ hst := besideSlot_yields hst.1 (h.read place _ hst.2)

/-- The pixels of a separable filter are sums over the outer product of its factors. -/
theorem Gives.separable {A : Arithmetic} {p : A.Pixel} {k : A.Coeff} {q : A.Pixel} {μ : Type}
    {P : A.Value p → Prop} {Q : A.Value q → Prop} {I : Trail μ → Prop}
    {s : Sampler (Trail μ) (A.Value p)} {hq : A.product p k = some q} (h : s.Gives E I P)
    (hI : ∀ memo log log', I { memo, log } → I { memo, log := log' })
    {row col : List (A.Factor k)}
    (outer : (Kernel.outer (A.one k) A.times row col).Yields E fun kernel =>
      Sums E P Q hq kernel.reading (A.start q))
    (anchor : Anchor (max 1 row.length) (max 1 col.length)) (border : Border)
    (hblank : P (A.blank p)) :
    (s.separable hq row col anchor border).Gives E (Beside (KeepsOuter row col) I) Q := by
  apply computed_gives
  intro x y plane st hst
  apply Yields.bind
  apply (outerKernel_yields hI outer.tolerable hst).mono
  rintro kernel st' ⟨hst', built⟩
  exact (h.besideSlot _).convolveAt lax (outer.value built) anchor (some border)
    (fun _ => hblank) x y plane st' hst'

end Sampler

end ImageViews
