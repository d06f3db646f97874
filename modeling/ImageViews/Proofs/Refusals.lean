import ImageViews.Pixel.Standard
import ImageViews.Proofs.Lookup
import ImageViews.View.Evaluate

/-!
# Refused destinations

A destination is refused when its extent is not that of the box or its planes are not those of the
view, and for no other reason. The test comes before any work, so a refusal leaves everything as it
was. Buffers and windows that an evaluation makes for itself always have the extent that is asked of
them, so evaluations without a destination are never refused.
-/
namespace ImageViews

variable {σ α β γ : Type} {n : Nat}

/-- The evaluation is refused in no state, and its values have the property `Q`. -/
def Unrefused (m : ExceptT Failure (StateM σ) α) (Q : α → Prop) : Prop :=
  ∀ s, Yields (Failure.Tolerated Lenient) m s fun a _ => Q a

namespace Unrefused

variable {m : ExceptT Failure (StateM σ) α} {Q : α → Prop} {R : β → Prop}

theorem ne_error (h : Unrefused m Q) (s : σ) (cause : ImageError) :
    (m.run.run s).1 ≠ .error (.error cause) :=
  (h s).ne_error id

theorem pure {a : α} (h : Q a) : Unrefused (pure a : ExceptT Failure (StateM σ) α) Q :=
  fun _ => Yields.pure h

theorem mono {R : α → Prop} (h : Unrefused m Q) (hQ : ∀ a, Q a → R a) : Unrefused m R :=
  fun s => (h s).mono fun a _ ha => hQ a ha

theorem bind {f : α → ExceptT Failure (StateM σ) β} (h : Unrefused m Q)
    (hf : ∀ a, Q a → Unrefused (f a) R) : Unrefused (m >>= f) R := by
  intro s
  apply Yields.bind
  apply (h s).mono
  intro a s' ha
  exact hf a ha s'

theorem check {c : Check α} (h : ∀ a, c = .ok a → Q a) :
    Unrefused (liftM c : ExceptT Failure (StateM σ) α) Q :=
  fun _ => Yields.check (.of_tolerable (fun _ _ => trivial) h)

theorem probe (probe : Probe σ α) : Unrefused (liftM probe : Paint σ γ n α) fun _ => True := by
  rintro ⟨cells, s⟩
  apply Yields.probe
  unfold Yields
  split <;> trivial

theorem render {render : Render α} (h : Unrefused render Q) :
    Unrefused (liftM render : Paint Log γ n α) Q :=
  fun (_, log) => Yields.render (h log)

theorem onto {paint : Paint Log γ n Unit} (h : Unrefused paint fun _ => True)
    (cells : Vector γ n) : Unrefused (paint.onto cells) fun _ => True :=
  fun log => Yields.onto (h (cells, log))

theorem sweep {π : Type} {step : π → Check π}
    {visit : Nat → π → β → ExceptT Failure (StateM σ) β}
    (h : ∀ i place acc, Unrefused (visit i place acc) fun _ => True) (k i : Nat) (place : π)
    (acc : β) : Unrefused (sweep step visit k i place acc) fun _ => True := by
  induction k generalizing i place acc with
  | zero => exact pure trivial
  | succ k ih =>
    apply bind (h i place acc)
    intro acc' _
    apply bind (check fun _ _ => trivial)
    intro place' _
    exact ih (i + 1) place' acc'

end Unrefused

/-- What holds after a check whatever its value. -/
theorem Check.Yields.bind_any {check : Check α} {f : α → Check β} {R : β → Prop}
    (h : ∀ a, (f a).Yields Lenient R) : Check.Yields Lenient (check >>= f) R :=
  .bind (.of_tolerable (fun _ _ => trivial) fun a _ => h a)

namespace Handle

variable {handle : Handle n} {box : Box} {planes : Nat}

/-- In what a handle does not match a box of a view: its size, or else its planes. -/
inductive Mismatch (handle : Handle n) (box : Box) (planes : Nat) : ImageError → Prop
  | size (differs : handle.cols ≠ box.width ∨ handle.rows ≠ box.height) :
    Mismatch handle box planes (.destinationSize handle.cols handle.rows box.width box.height)
  | planes (cols_eq : handle.cols = box.width) (rows_eq : handle.rows = box.height)
    (differs : handle.planes ≠ planes) :
    Mismatch handle box planes (.destinationPlanes handle.planes planes)

theorem accept_eq_error {cause : ImageError} :
    handle.accept box planes = .error cause ↔ handle.Mismatch box planes cause := by
  constructor
  · unfold accept
    by_cases size : handle.cols ≠ box.width ∨ handle.rows ≠ box.height
    · rw [if_pos size]
      rintro ⟨⟩
      exact .size size
    rw [if_neg size]
    by_cases count : handle.planes ≠ planes
    · rw [if_pos count]
      rintro ⟨⟩
      exact .planes (by omega) (by omega) count
    · rw [if_neg count]
      exact (nomatch ·)
  · rintro (size | ⟨cols_eq, rows_eq, count⟩)
    · rw [accept, if_pos size]
      rfl
    · rw [accept, if_neg (by simp [cols_eq, rows_eq]), if_pos count]
      rfl

/-- Only the extent of the box matters. -/
theorem Mismatch.congr {box' : Box} {cause : ImageError} (h : handle.Mismatch box planes cause)
    (width : box'.width = box.width) (height : box'.height = box.height) :
    handle.Mismatch box' planes cause := by
  have same : handle.accept box' planes = handle.accept box planes := by
    simp only [accept, width, height]
  exact accept_eq_error.1 (same.trans (accept_eq_error.2 h))

/-- Refused exactly when the handle does not match, for that reason, and a refusal leaves the cells
and the state as they were. -/
def RefusedExactly (handle : Handle n) (box : Box) (planes : Nat) (paint : Paint σ α n Unit)
    (s : Vector α n × σ) : Prop :=
  ∀ cause, ((paint.run.run s).1 = .error (.error cause) ↔ handle.Mismatch box planes cause) ∧
    (handle.Mismatch box planes cause → (paint.run.run s).2 = s)

theorem refusedExactly_of {paint : Paint σ α n Unit} {s : Vector α n × σ}
    (refused : ∀ cause, handle.Mismatch box planes cause →
      paint.run.run s = (.error (.error cause), s))
    (served : handle.Takes box planes → Unrefused paint fun _ => True) :
    handle.RefusedExactly box planes paint s := by
  intro cause
  constructor
  · constructor
    · intro outcome
      cases tested : handle.accept box planes with
      | ok =>
        exact ((served (accept_eq_ok.1 tested)).ne_error s cause outcome).elim
      | error cause' =>
        have mismatch := accept_eq_error.1 tested
        rw [refused cause' mismatch] at outcome
        obtain rfl : cause' = cause := by simpa using outcome
        exact mismatch
    · intro mismatch
      rw [refused cause mismatch]
  · intro mismatch
    rw [refused cause mismatch]

theorem accept_run {cause : ImageError} (h : handle.Mismatch box planes cause)
    (rest : Unit → Paint σ α n Unit) (s : Vector α n × σ) :
    ((liftM (handle.accept box planes) : Paint σ α n Unit) >>= rest).run.run s =
      (.error (.error cause), s) := by
  rw [accept_eq_error.2 h]
  rfl

theorem set_unrefused (handle : Handle n) (x y p : Nat) (value : α) :
    Unrefused (handle.set x y p value : Paint σ α n Unit) fun _ => True := by
  apply Unrefused.bind (.check fun _ _ => trivial)
  intro cell _ s
  exact trivial

theorem fill_unrefused (handle : Handle n) (addressing : Addressing) (start : addressing.Place)
    (value : addressing.Place → Probe σ α) :
    Unrefused (handle.fill addressing start value) fun _ => True := by
  refine .sweep (fun y place _ => ?_) _ _ _ _
  refine .sweep (fun x place _ => ?_) _ _ _ _
  refine .sweep (fun p place _ => ?_) _ _ _ _
  apply Unrefused.bind (.probe (value place))
  intro a _
  exact handle.set_unrefused x y p a

/-- The handle of a whole image takes the box of that extent. -/
theorem whole_takes {cols rows planes : Nat} {handle : Handle n}
    (h : whole n cols rows planes = .ok handle) :
    handle.Takes { width := cols, height := rows } planes := by
  have extent : (whole n cols rows planes).Yields Lenient fun handle =>
      handle.Takes { width := cols, height := rows } planes :=
    .bind_any fun _ => .bind_any fun _ => .bind_any fun _ => .ok ⟨rfl, rfl, rfl⟩
  exact extent.value h

/-- A window takes the boxes of its extent. -/
theorem window_takes {x y cols rows : Nat} {w : Handle n}
    (h : handle.window x y cols rows = .ok w) {part : Box} (width : part.width = cols)
    (height : part.height = rows) : w.Takes part handle.planes := by
  have extent : (handle.window x y cols rows).Yields Lenient fun w =>
      w.Takes part handle.planes := by
    have cut (offset : Nat) : Check.Yields Lenient (if h : handle.start + offset ≤ n then
        .ok { handle with start := handle.start + offset, cols, rows, start_le := h }
        else .error .outOfBounds) fun w => w.Takes part handle.planes := by
      split
      · exact .ok ⟨width.symm, height.symm, rfl⟩
      · trivial
    refine .bind_any fun _ => .bind_any fun _ => .bind_any fun _ => .bind_any fun _ => ?_
    by_cases empty : cols = 0 ∨ rows = 0
    · rw [if_pos empty]
      exact cut 0
    · rw [if_neg empty]
      exact .bind_any cut
  exact extent.value h

end Handle

namespace Image

/-- The image has the extent of the box, with `planes` planes. -/
def Matches (image : Image α) (box : Box) (planes : Nat) : Prop :=
  image.cols = box.width ∧ image.rows = box.height ∧ image.planes = planes

variable {storage : Storage α} {box : Box} {planes : Nat}

theorem render_unrefused {cols rows : Nat}
    {paint : Handle (cols * rows * planes) → Paint Log α (cols * rows * planes) Unit}
    (h : ∀ handle, handle.Takes { width := cols, height := rows } planes →
      Unrefused (paint handle) fun _ => True) :
    Unrefused (render storage cols rows planes paint)
      (·.Matches { width := cols, height := rows } planes) := by
  apply Unrefused.bind (.check fun _ _ => trivial)
  intro _ _
  apply Unrefused.bind (.check fun _ => Handle.whole_takes)
  intro handle takes
  apply Unrefused.bind (.onto (h handle takes) _)
  intro cells _
  exact .pure ⟨rfl, rfl, rfl⟩

theorem strided_of_lt (image : Image α) (area : image.cols * image.rows < Extent.modulus)
    (count : image.cells.size < Extent.modulus)
    (line : image.cols * image.planes < Extent.modulus) : ∃ grid, image.strided = .ok grid := by
  rw [image.size_cells] at count
  have counted : Image.count image.cols image.rows image.planes =
      .ok (image.cols * image.rows * image.planes) := by
    simp only [Image.count, Extent.mul, Extent.checked_of_lt area, Check.ok_bind,
      Extent.checked_of_lt count]
  have enough : Check.require (image.cols * image.rows * image.planes ≤ image.cells.size)
      .shortBuffer = .ok () := Check.require_eq_ok.2 (Nat.le_of_eq image.size_cells.symm)
  simp only [strided, Strided.ofCells, counted, enough, Extent.mul, Extent.checked_of_lt line,
    Check.ok_bind]
  exact ⟨_, rfl⟩

theorem blank_unrefused : Unrefused
    (liftM (blank storage box.width box.height planes) : Render (Image α))
    (·.Matches box planes) := by
  have extent : (blank storage box.width box.height planes).Yields Lenient
      (·.Matches box planes) :=
    .bind_any fun _ => .ok ⟨rfl, rfl, rfl⟩
  exact .check fun _ => extent.value

theorem generate_unrefused {bytes : Nat} {f : Nat → Nat → Nat → Check α} : Unrefused
    (liftM (generate bytes box.width box.height planes f) : Render (Image α))
    (·.Matches box planes) := by
  have extent : (generate bytes box.width box.height planes f).Yields Lenient
      (·.Matches box planes) :=
    .bind_any fun _ => .bind_any fun _ => .ok ⟨rfl, rfl, rfl⟩
  exact .check fun _ => extent.value

end Image

namespace Sampler

variable {handle : Handle n} {box : Box}

theorem paint_unrefused (s : Sampler σ α) (takes : handle.Takes box s.planes) :
    Unrefused (s.paint handle box) fun _ => True := by
  intro st
  apply Yields.bind
  apply Handle.accept_yields takes
  refine Unrefused.bind (.check fun _ _ => trivial) (fun start _ => ?_) st
  exact handle.fill_unrefused s.addressing start s.read

/-- Painting pixel by pixel begins with the test of the handle. -/
theorem paint_refused (s : Sampler σ α) {cause : ImageError}
    (mismatch : handle.Mismatch box s.planes cause) (st : Vector α n × σ) :
    (s.paint handle box).run.run st = (.error (.error cause), st) :=
  Handle.accept_run mismatch _ st

theorem paint_refusedExactly (s : Sampler σ α) (st : Vector α n × σ) :
    handle.RefusedExactly box s.planes (s.paint handle box) st :=
  Handle.refusedExactly_of (fun _ mismatch => s.paint_refused mismatch st) s.paint_unrefused

end Sampler

namespace Tiler

variable {t : Tiler α}

/-- A handle that takes the box is never refused. -/
def Serves (t : Tiler α) : Prop :=
  ∀ {n : Nat} (handle : Handle n) (box : Box), handle.Takes box t.planes →
    Unrefused (t.rasterize handle box) fun _ => True

theorem strided_serves (grid : Strided α) : (strided grid).Serves :=
  fun _ _ takes => (Sampler.strided grid).paint_unrefused takes

theorem image_serves (image : Image α) : (Tiler.image image).Serves := by
  intro n handle box takes
  apply Unrefused.bind (.check fun grid strided => (image.strided_yields).value strided)
  rintro _ rfl
  exact (Sampler.strided _).paint_unrefused takes

theorem Serves.crop (h : t.Serves) (x0 y0 : Int) (cols rows : Nat) :
    (t.crop x0 y0 cols rows).Serves := by
  intro n handle box takes
  have extent : (box.translate x0 y0).Yields Lenient fun moved =>
      moved.width = box.width ∧ moved.height = box.height :=
    .bind_any fun _ => .bind_any fun _ => .ok ⟨rfl, rfl⟩
  apply Unrefused.bind (.check fun _ => extent.value)
  rintro moved ⟨width, height⟩
  exact h handle moved ⟨takes.1.trans width.symm, takes.2.1.trans height.symm, takes.2.2⟩

theorem Serves.region (h : t.Serves) (storage : Storage α) (box : Box) :
    Unrefused (t.region storage box) (·.Matches box t.planes) :=
  Image.render_unrefused fun handle takes => h handle box takes

theorem Serves.paintPart (h : t.Serves) {box part : Box} {whole : Handle n}
    (planes : whole.planes = t.planes) :
    Unrefused (t.paintPart box part whole) fun _ => True := by
  apply Unrefused.bind (.check fun _ _ => trivial)
  intro left _
  apply Unrefused.bind (.check fun _ _ => trivial)
  intro top _
  apply Unrefused.bind (.check fun _ window => Handle.window_takes window rfl rfl)
  intro window takes
  exact h window part (planes ▸ takes)

theorem Serves.padded (h : t.Serves) (storage : Storage α) (box : Box) :
    Unrefused (t.padded storage box) (·.Matches box t.planes) := by
  apply Unrefused.bind (.check fun _ _ => trivial)
  rintro (_ | inner) -
  · exact Image.blank_unrefused
  · exact Image.render_unrefused fun handle takes => h.paintPart takes.2.2

theorem Serves.mapped (h : t.Serves) (border : Border) (storage : Storage α) (box : Box) :
    Unrefused (t.mapped border storage box) (·.Matches box t.planes) := by
  apply Unrefused.bind (.check fun _ _ => trivial)
  intro xs _
  apply Unrefused.bind (.check fun _ _ => trivial)
  intro ys _
  apply Unrefused.bind (.check fun _ _ => trivial)
  intro source _
  apply Unrefused.bind (h.region storage source)
  intro pixels _
  exact Image.generate_unrefused

/-- The image of any box has the extent of the box. -/
theorem Serves.extend (h : t.Serves) (border : Border) (storage : Storage α) (box : Box) :
    Unrefused (t.extend border storage box) (·.Matches box t.planes) := by
  unfold Tiler.extend
  split
  · exact Image.blank_unrefused
  apply Unrefused.bind (.check fun _ _ => trivial)
  intro inside _
  split
  · exact h.region storage box
  split
  · exact h.padded storage box
  · exact h.mapped border storage box

theorem Serves.extended (h : t.Serves) (border : Border) (storage : Storage α) :
    (t.extended border storage).Serves := by
  intro n handle box takes s
  apply Yields.bind
  apply Handle.accept_yields takes
  refine Unrefused.bind (.render (h.extend border storage box)) (fun image matched => ?_) s
  obtain ⟨cols_eq, rows_eq, planes_eq⟩ := matched
  exact image_serves image handle _
    ⟨takes.1.trans cols_eq.symm, takes.2.1.trans rows_eq.symm, takes.2.2.trans planes_eq.symm⟩

section Filters

variable {A : Arithmetic} {p : A.Pixel} {k : A.Coeff} {q : A.Pixel} {t : Tiler (A.Value p)}

theorem Serves.windowsPatch (h : t.Serves) {cols rows : Nat} (anchor : Anchor cols rows)
    (border : Option Border) (box : Box) :
    Unrefused (t.windowsPatch anchor border box) (·.image.planes = t.planes) := by
  apply Unrefused.bind (.check fun _ _ => trivial)
  intro source _
  have shown : Unrefused (t.regionWith border (A.storage p) source)
      (·.Matches source t.planes) := by
    cases border with
    | none => exact h.region (A.storage p) source
    | some border => exact h.extend border (A.storage p) source
  apply Unrefused.bind shown
  intro image matched
  have kept : (Patch.ofBox image source).Yields Lenient (·.image.planes = t.planes) :=
    .bind_any fun _ => .bind_any fun _ => .ok matched.2.2
  exact .check fun _ => kept.value

theorem Serves.convolve (h : t.Serves) (hq : A.product p k = some q)
    (kernel : Kernel (A.Factor k)) (anchor : Anchor kernel.cols kernel.rows)
    (border : Option Border) : (t.convolve hq kernel anchor border).Serves := by
  intro n handle box takes s
  apply Yields.bind
  apply Handle.accept_yields takes
  apply Yields.bind
  refine Unrefused.bind (.render (h.windowsPatch anchor border box)) (fun patch planes => ?_) _
  exact Sampler.paint_unrefused _ ⟨takes.1, takes.2.1, takes.2.2.trans planes.symm⟩

theorem convolveRows_unrefused (grid : Strided (A.Value p)) (hq : A.product p k = some q)
    (factor : List (A.Factor k)) (handle : Handle n) :
    Unrefused (convolveRows grid hq factor handle) fun _ => True := by
  apply Unrefused.bind (.check fun _ _ => trivial)
  intro read _
  apply Unrefused.bind (.check fun _ _ => trivial)
  intro needed _
  apply Unrefused.bind (.check fun _ _ => trivial)
  intro _ _
  apply Unrefused.bind (.check fun _ _ => trivial)
  intro _ _
  exact handle.fill_unrefused _ _ _

/-- The passes make no demand on the handle. -/
theorem Serves.passes (h : t.Serves) (hq : A.product p k = some q)
    (row col : List (A.Factor k)) (anchor : Anchor (max 1 row.length) (max 1 col.length))
    (border : Border) (handle : Handle n) (box : Box) :
    Unrefused (t.separablePasses hq row col anchor border handle box) fun _ => True := by
  unfold separablePasses
  split
  · apply Unrefused.bind (.render (h.extend border (A.storage p) box))
    intro source _
    exact handle.fill_unrefused _ _ _
  apply Unrefused.bind (.check fun _ _ => trivial)
  intro sourceBox _
  apply Unrefused.bind (.render (h.extend border (A.storage p) sourceBox))
  intro source _
  split
  · apply Unrefused.bind (.check fun _ _ => trivial)
    intro grid _
    exact convolveRows_unrefused _ hq _ _
  split
  · apply Unrefused.bind (.check fun _ _ => trivial)
    intro grid _
    exact convolveRows_unrefused _ hq _ _
  have rendered : Unrefused
      (Image.render (A.storage q) box.width sourceBox.height t.planes fun whole => do
        convolveRows (← source.strided) hq row whole)
      (·.Matches { width := box.width, height := sourceBox.height } t.planes) := by
    apply Image.render_unrefused
    intro whole _
    apply Unrefused.bind (.check fun _ _ => trivial)
    intro grid _
    exact convolveRows_unrefused _ hq _ _
  apply Unrefused.bind (.render rendered)
  intro lines _
  apply Unrefused.bind (.check fun _ _ => trivial)
  intro grid _
  exact convolveRows_unrefused _ _ _ _

theorem Serves.separable (h : t.Serves) (hq : A.product p k = some q)
    (row col : List (A.Factor k)) (anchor : Anchor (max 1 row.length) (max 1 col.length))
    (border : Border) : (t.separable hq row col anchor border).Serves := by
  intro n handle box takes s
  apply Yields.bind
  apply Handle.accept_yields takes
  apply Yields.bind
  exact h.passes hq row col anchor border handle box _

end Filters

end Tiler

namespace View

variable {A : Arithmetic} {p : A.Pixel}

theorem tiler_serves (v : View A p) : v.tiler.Serves := by
  induction v with
  | image pixels => exact Tiler.image_serves pixels
  | strided grid => exact Tiler.strided_serves grid
  | crop child x0 y0 cols rows ih => exact ih.crop x0 y0 cols rows
  | extend child border ih => exact ih.extended border _
  | convolve child h kernel anchor border ih => exact ih.convolve h kernel anchor border
  | separable child h row col anchor border ih => exact ih.separable h row col anchor border

/-- A view without separable filters, which keeps no kernel. -/
def Plain : {p : A.Pixel} → View A p → Prop
  | _, image .. | _, strided _ => True
  | _, crop child .. | _, extend child _ | _, convolve child .. => child.Plain
  | _, separable .. => False

/-- Prerasterizing is never refused, and gives a view without separable filters. -/
theorem prerasterize_unrefused (v : View A p) (box : Box) :
    Unrefused (v.prerasterize box) Plain := by
  induction v generalizing box with
  | image pixels =>
    apply Unrefused.bind (.check fun _ _ => trivial)
    intro grid _
    exact .pure trivial
  | strided grid => exact .pure trivial
  | crop child x0 y0 cols rows ih =>
    apply Unrefused.bind (.check fun _ _ => trivial)
    intro moved _
    apply Unrefused.bind (ih moved)
    intro child' plain
    exact .pure plain
  | extend child border =>
    apply Unrefused.bind (Tiler.Serves.extend child.tiler_serves border _ box)
    intro image _
    apply Unrefused.bind (.check fun _ _ => trivial)
    intro patch _
    exact .pure trivial
  | convolve child h kernel anchor border =>
    apply Unrefused.bind (Tiler.Serves.windowsPatch child.tiler_serves anchor border box)
    intro patch _
    exact .pure trivial
  | @separable _ _ q child h row col anchor border =>
    have rendered : Unrefused (Image.render (A.storage q) box.width box.height child.planes
        (child.tiler.separablePasses h row col anchor border · box)) fun _ => True := by
      apply (Image.render_unrefused fun handle _ => Tiler.Serves.passes child.tiler_serves h row col
        anchor border handle box).mono
      intro _ _
      trivial
    apply Unrefused.bind rendered
    intro image _
    apply Unrefused.bind (.check fun _ _ => trivial)
    intro patch _
    exact .pure trivial

/-- The crops on the way to the first node that is none keep the corner of the box in words, and if
that is a stored image, its cells and the length of its rows can be counted. -/
def Placed : {p : A.Pixel} → View A p → Box → Prop
  | _, image pixels _, _ =>
    (pixels.cols * pixels.rows < Extent.modulus ∧ pixels.cells.size < Extent.modulus) ∧
      pixels.cols * pixels.planes < Extent.modulus
  | _, crop child x0 y0 _ _, box =>
    (Coordinate.Fits (box.x + x0) ∧ Coordinate.Fits (box.y + y0)) ∧
      child.Placed { box with x := box.x + x0, y := box.y + y0 }
  | _, strided _, _ | _, extend .., _ | _, convolve .., _ | _, separable .., _ => True

/-- The view without its stored pixels, so that reading any of them faults. -/
def blind : {p : A.Pixel} → View A p → View A p
  | _, image pixels _ => .strided {
      cells := #[], cols := pixels.cols, rows := pixels.rows, planes := pixels.planes
      colStride := pixels.planes, rowStride := pixels.cols * pixels.planes }
  | _, strided grid => .strided { grid with cells := #[] }
  | _, crop child x0 y0 cols rows => .crop child.blind x0 y0 cols rows
  | _, extend child border => .extend child.blind border
  | _, convolve child h kernel anchor border => .convolve child.blind h kernel anchor border
  | _, separable child h row col anchor border => .separable child.blind h row col anchor border

theorem blind_planes (v : View A p) : v.blind.planes = v.planes := by
  induction v with
  | image | strided => simp only [blind, planes, tiler, Tiler.image, Tiler.strided]
  | crop _ _ _ _ _ ih | extend _ _ ih | convolve _ _ _ _ _ ih | separable _ _ _ _ _ _ ih =>
    simp only [planes] at ih
    simp only [blind, planes, tiler, Tiler.crop, Tiler.extended, Tiler.convolve, Tiler.separable,
      ih]

theorem Placed.blind {v : View A p} {box : Box} (placed : v.Placed box) : v.blind.Placed box := by
  induction v generalizing box with
  | crop _ _ _ _ _ ih => exact ⟨placed.1, ih placed.2⟩
  | image | strided | extend | convolve | separable => trivial

variable {v : View A p} {box : Box} {n : Nat} {handle : Handle n}

/-- The handle is tested before anything is evaluated. -/
theorem rasterize_refused (placed : v.Placed box) {cause : ImageError}
    (mismatch : handle.Mismatch box v.planes cause) (s : Vector (A.Value p) n × Log) :
    (v.rasterize handle box).run.run s = (.error (.error cause), s) := by
  induction v generalizing box with
  | image pixels =>
    obtain ⟨⟨area, count⟩, line⟩ := placed
    obtain ⟨grid, strided⟩ := pixels.strided_of_lt area count line
    have same := (pixels.strided_yields).value strided
    change (liftM pixels.strided >>= fun grid =>
      (Sampler.strided grid).paint handle box).run.run s = _
    rw [strided]
    subst same
    exact Sampler.paint_refused (Sampler.strided _) mismatch s
  | strided grid => exact Sampler.paint_refused _ mismatch s
  | crop child x0 y0 cols rows ih =>
    obtain ⟨⟨hx, hy⟩, placed⟩ := placed
    have moved : box.translate x0 y0 =
        .ok { box with x := box.x + x0, y := box.y + y0 } := by
      simp only [Box.translate, Coordinate.add, Coordinate.checked_of_fits hx,
        Coordinate.checked_of_fits hy]
      rfl
    change (liftM (box.translate x0 y0) >>= fun moved => child.rasterize handle moved).run.run s = _
    rw [moved]
    exact ih placed (mismatch.congr rfl rfl) s
  | extend child border => exact Handle.accept_run mismatch _ s
  | convolve child h kernel anchor border => exact Handle.accept_run mismatch _ s
  | separable child h row col anchor border => exact Handle.accept_run mismatch _ s

/-- Painting a box, tiled or pixel by pixel, is refused exactly when the handle does not match. -/
def RefusesExactly (v : View A p) (handle : Handle n) (box : Box) (planes : Nat) : Prop :=
  (∀ s, handle.RefusedExactly box planes (v.rasterize handle box) s) ∧
    ∀ s, handle.RefusedExactly box planes (v.paint handle box) s

theorem Placed.refusesExactly (placed : v.Placed box) (handle : Handle n) :
    v.RefusesExactly handle box v.planes := by
  constructor
  · intro s
    exact Handle.refusedExactly_of (fun _ mismatch => rasterize_refused placed mismatch s)
      (v.tiler_serves handle box)
  · intro s
    rw [← v.sampler_planes]
    exact v.sampler.paint_refusedExactly s

/-- Destinations are refused exactly when they do not match, and nothing is read or changed by then:
the cells, the log and the kept kernels are what they were, and the outcome is the same without any
stored pixel. What makes its own destination is never refused. -/
theorem refused_exactly_on_mismatch (v : View A p) :
    (∀ {n : Nat} (handle : Handle n) (box : Box), v.Placed box →
      v.RefusesExactly handle box v.planes ∧ v.blind.RefusesExactly handle box v.planes) ∧
    ∀ (border : Border) (box : Box) (log : Log) (cause : ImageError),
      ((v.prerasterize box).run.run log).1 ≠ .error (.error cause) ∧
      (v.toImage.run.run log).1 ≠ .error (.error cause) ∧
      ((v.region box).run.run log).1 ≠ .error (.error cause) ∧
      ((v.extendedRegion border box).run.run log).1 ≠ .error (.error cause) := by
  constructor
  · intro n handle box placed
    refine ⟨placed.refusesExactly handle, ?_⟩
    rw [← v.blind_planes]
    exact placed.blind.refusesExactly handle
  · intro border box log cause
    have serves := Tiler.Serves.region v.tiler_serves (A.storage p)
    exact ⟨(v.prerasterize_unrefused box).ne_error log cause, (serves v.bounds).ne_error log cause,
      (serves box).ne_error log cause,
      (Tiler.Serves.extend v.tiler_serves border _ box).ne_error log cause⟩

section Examples

/-- A crop of two filtered pixels. -/
def croppedFilter : View .standard PixelKind.i32 :=
  crop (A := .standard) (p := PixelKind.i32)
    (separable (A := .standard) (p := PixelKind.u8) (k := CoeffKind.i32)
      (image (A := .standard) (p := PixelKind.u8)
        { cols := 2, rows := 1, planes := 1, cells := (#[3, 4] : Array UInt8), size_cells := rfl }
        .given) PixelKind.product_u8 ([3, 4] : List Int32) ([4] : List Int32)
      { col := 0, row := 0, col_lt := by decide, row_lt := by decide } .reflect) 1 0 1 1

/-- A destination of two columns is refused for a box of one, with everything left as it was. -/
theorem croppedFilter_refuses :
    let box : Box := { width := 1, height := 1 }
    croppedFilter.Placed box ∧ ∀ (cells : Vector Int32 2) (log : Log),
      (croppedFilter.rasterize (.row 2) box).run.run (cells, log) =
        (.error (.error (.destinationSize 2 1 1 1)), (cells, log)) := by
  intro box
  have placed : croppedFilter.Placed box := ⟨by decide, trivial⟩
  refine ⟨placed, fun cells log => ?_⟩
  have mismatch : (Handle.row 2).Mismatch box croppedFilter.planes (.destinationSize 2 1 1 1) :=
    .size (.inl (by decide))
  obtain ⟨⟨exact, -⟩, -⟩ := (refused_exactly_on_mismatch croppedFilter).1 (.row 2) box placed
  obtain ⟨refused, unchanged⟩ := exact (cells, log) (.destinationSize 2 1 1 1)
  exact Prod.ext (refused.2 mismatch) (unchanged mismatch)

/-- An image without rows whose rows would be longer than words can count. -/
def emptyRows : View .standard PixelKind.u8 :=
  image (A := .standard) (p := PixelKind.u8)
    { cols := 0x10000000000, rows := 0, planes := 0x10000000000, cells := (#[] : Array UInt8)
      size_cells := rfl } .given

/-- The strides of a stored image are computed before the destination is tested. -/
theorem emptyRows_faults :
    let box : Box := { width := 1, height := 1 }
    (Handle.row 2).Mismatch box emptyRows.planes (.destinationSize 2 1 1 1) ∧
      ((emptyRows.rasterize (.row 2) box).run.run (Vector.replicate 2 (0 : UInt8), [])).1 =
        .error (.fault .overflow) :=
  ⟨.size (.inl (by decide)), rfl⟩

end Examples

end View

end ImageViews
