import ImageViews.Pixel.Masked
import ImageViews.Proofs.Twins

/-!
# The mask dropped

A view of masked pixels and the view of their values, the mask dropped, are in step: no operation on
masked pixels looks at the validity to find the value. An empty sum is only marked as valid, so its
value is the empty sum of values as long as these carry no flag of their own. Masked pixels take
more bytes, so a buffer of them may be too large where one of the values is not; otherwise the two
views fail alike.
-/
namespace ImageViews

variable {A : Arithmetic} {α β : Type} {T : Fault → Prop} {n : Nat}

/-- What is computed for the values is kept beside a validity. -/
theorem Masked.carries (c : Check α) (valid : Bool) :
    Check.Carries T (do return { value := ← c, valid } : Check (Masked α)) c fun m a =>
      m.value = a := by
  cases c with
  | ok a => exact .ok rfl
  | error fault => exact .inr rfl

/-- Masked pixels stand for their values. -/
def Likeness.masked (unflagged : A.Unflagged) : Likeness A where
  Value p := Masked (A.Value p)
  storage := A.masked.storage
  scale := A.masked.scale
  validate := A.masked.validate
  add := A.masked.add
  Alike m a := m.value = a
  bytes_le _ := Nat.le_add_right ..
  blank_alike _ := rfl
  start_alike p := (unflagged p _).symm
  scale_alike _ _ _ _ _ alike := by
    subst alike
    exact Masked.carries _ _
  add_alike _ alike alike' := by
    subst alike alike'
    exact Masked.carries _ _

/-- The value of a mask in a mask starts with a flag that is not set. -/
example : (Arithmetic.standard.masked.masked.start PixelKind.u8).value.valid = false := rfl

theorem Image.map_selected (image : Image (Masked α)) :
    image.Selected (.whole T) (fun m a => m.value = a) (image.map Masked.value) where
  cols_eq := rfl
  rows_eq := rfl
  planes_eq := (Pace.whole_mul _).symm
  chosen := Pace.whole_chosen.2 rfl
  size_le := .inl rfl

/-- The grid of the values. -/
def Strided.unmasked (grid : Strided (Masked α)) : Strided α :=
  { grid with cells := grid.cells.map Masked.value }

namespace View

/-- The view of the values. -/
def unmasked : {p : A.masked.Pixel} → View A.masked p → View A p
  | _, image pixels provenance => .image (pixels.map Masked.value) provenance
  | _, strided grid => .strided grid.unmasked
  | _, crop child x0 y0 cols rows => .crop child.unmasked x0 y0 cols rows
  | _, extend child border => .extend child.unmasked border
  | _, convolve child h kernel anchor border => .convolve child.unmasked h kernel anchor border
  | _, separable child h row col anchor border =>
    .separable child.unmasked h row col anchor border

variable {p : A.masked.Pixel}

theorem unmasked_inStep (unflagged : A.Unflagged) (v : View A.masked p) :
    InStep (.whole T) (.masked unflagged) v v.unmasked := by
  induction v with
  | image pixels => exact .image pixels.map_selected (.inl rfl)
  | strided grid => exact .strided (grid.mapped_selected rfl) rfl rfl
  | crop _ _ _ _ _ ih => exact .crop ih
  | extend _ _ ih => exact .extend ih
  | convolve _ _ _ _ _ ih => exact .convolve ih (.inl rfl)
  | separable _ _ _ _ _ _ ih => exact .separable ih

/-- Dropping the mask of the pixels that a view gives is dropping the mask of those it reads. Point
access fails alike. Boxes may be short of room for masked pixels only, and fail alike otherwise. -/
structure DropsMask (v : View A.masked p) : Prop where
  get : ∀ {x y : Int} {plane : Nat} {trail : Trail v.Memo} {trail' : Trail v.unmasked.Memo},
    v.Keeps trail → v.unmasked.Keeps trail' →
    ((v.unmasked.get x y plane).run.run trail').1 =
      ((v.get x y plane).run.run trail).1.map Masked.value
  rasterize : ∀ {n : Nat} {handle : Handle n} {box : Box} {cells painted : Vector (Masked _) n}
    {log log' : Log}, (v.rasterize handle box).run.run (cells, log) = (.ok (), painted, log') →
    ∀ log, ∃ log', (v.unmasked.rasterize handle box).run.run (cells.map Masked.value, log) =
      (.ok (), painted.map Masked.value, log')
  failure : ∀ {n : Nat} {handle : Handle n} {box : Box} {cells painted : Vector (Masked _) n}
    {log log' : Log} {cause : Failure},
    (v.rasterize handle box).run.run (cells, log) = (.error cause, painted, log') →
    cause = .fault .capacity ∨ ∀ log,
      ((v.unmasked.rasterize handle box).run.run (cells.map Masked.value, log)).1 = .error cause

/-- Painting carries over with any excuse that covers a lack of room. -/
theorem rasterize_unmasked (unflagged : A.Unflagged) (v : View A.masked p)
    (capacity : T .capacity) (handle : Handle n) (box : Box) :
    Carries (Pace.Painting (.whole T) fun (m : Masked _) a => m.value = a) (Failure.Excused T)
      (v.rasterize handle box) (v.unmasked.rasterize handle box) fun _ _ => True :=
  ((v.unmasked_inStep unflagged).tiler capacity).rasterize handle.scales_whole_self (.inl rfl)

theorem dropsMask (unflagged : A.Unflagged) (v : View A.masked p) : v.DropsMask where
  get {x y plane trail trail'} keeps keeps' := by
    have inStep := v.unmasked_inStep unflagged (T := Strict)
    have carried := inStep.sampler.get x y (i := plane) (.inl rfl)
    rw [Pace.whole_nth] at carried
    change Carries _ _ (v.get x y plane) (v.unmasked.get x y plane) _ at carried
    rcases run : (v.get x y plane).run.run trail with ⟨fault | m, after⟩
    · exact (carried.failure ⟨keeps, keeps'⟩ run).resolve_left id
    · obtain ⟨a, after', run', rfl, -⟩ := carried.value ⟨keeps, keeps'⟩ run
      rw [run']
      rfl
  rasterize {n handle box cells painted log log'} run log₁ := by
    have carried := v.rasterize_unmasked unflagged (T := Lenient) trivial handle box
    obtain ⟨⟨⟩, ⟨painted', log₁'⟩, run', -, chosen, -⟩ := carried.value
      (t := (cells.map Masked.value, log₁)) ⟨Pace.whole_chosen.2 rfl, trivial⟩ run
    have same : painted.map Masked.value = painted' :=
      Vector.toArray_inj.1 (Pace.whole_chosen.1 chosen)
    exact ⟨log₁', same ▸ run'⟩
  failure {n handle box cells painted log log' cause} run := by
    have carried := v.rasterize_unmasked unflagged (T := (· = .capacity)) rfl handle box
    have alike (log₁ : Log) := carried.failure (t := (cells.map Masked.value, log₁))
      ⟨Pace.whole_chosen.2 rfl, trivial⟩ run
    cases cause with
    | error cause =>
      refine .inr fun log₁ => (alike log₁).resolve_left fun tolerant => ?_
      cases tolerant .overflow
    | fault cause =>
      by_cases capacity : cause = .capacity
      · exact .inl (congrArg Failure.fault capacity)
      · exact .inr fun log₁ => (alike log₁).resolve_left capacity

end View

end ImageViews
