import ImageViews.Pixel.Standard
import ImageViews.Proofs.Twins

/-!
# Planes are independent

A tree over an image of several planes and the same tree over one of the planes are in step: the
planes of the result are the results for the planes. Planes are stored side by side, so all strides
and offsets of the first evaluation are longer; whatever words hold them also hold those of the
second one, which therefore returns whenever the first one does.
-/
namespace ImageViews

variable {α : Type}

/-- One plane of several is compared, and only for evaluations that return. -/
def Pace.single (planes plane : Nat) (h : plane < planes) : Pace where
  sel := .one planes plane h
  Excused := Lenient
  room := .inr Lenient.tolerant

namespace Image

variable {image image' : Image α} {plane : Nat}

/-- The image of a plane has that plane of the image. -/
theorem selected_of_channel (hplane : plane < image.planes) (addressable : image.Addressable)
    (h : image.channel plane = .ok image') :
    image.Selected (.single image.planes plane hplane) Eq image' ∧ image'.planes = 1 := by
  rw [channel_of_lt hplane] at h
  obtain rfl := Except.ok.inj h
  refine ⟨⟨rfl, rfl, (Nat.mul_one _).symm, ⟨?_, ?_⟩, .inr addressable⟩, rfl⟩
  · simp [image.size_cells, Image.plane, ofVector, Pace.single, Selection.one, Nat.mul_comm]
  · intro i a b ha hb
    obtain ⟨hi, rfl⟩ := Array.getElem?_eq_some_iff.1 hb
    obtain ⟨hj, rfl⟩ := Array.getElem?_eq_some_iff.1 ha
    simp [Image.plane, ofVector, Pace.single, Selection.one, Selection.nth, Nat.mul_comm]

/-- An image that has a single plane of the image is the image of that plane. -/
theorem Selected.channel {planes : Nat} {hplane : plane < planes}
    (h : image.Selected (.single planes plane hplane) Eq image') (single : image'.planes = 1) :
    image.channel plane = .ok image' := by
  have planes_eq : image.planes = planes := by
    rw [h.planes_eq, single, Nat.mul_one]
    rfl
  rw [channel_of_lt (planes_eq ▸ hplane)]
  refine congrArg Except.ok (ext h.cols_eq h.rows_eq single.symm (Array.ext ?_ fun i hi hi' => ?_))
  · simp [Image.plane, ofVector, image'.size_cells, h.cols_eq, h.rows_eq, single]
  · have inside := (Pace.single planes plane hplane).sel.nth_lt.2 hi'
    rw [← h.chosen.size_eq] at inside
    rw [← h.chosen.alike (Array.getElem?_eq_getElem inside) (Array.getElem?_eq_getElem hi')]
    simp [Image.plane, ofVector, Pace.single, Selection.one, Selection.nth, Nat.mul_comm, planes_eq]

end Image

namespace View

variable {A : Arithmetic} {p : A.Pixel}

/-- The same tree over one plane of its image. A grid is no image of several planes. -/
def channel (plane : Nat) : {p : A.Pixel} → View A p → Option (View A p)
  | _, image pixels provenance =>
    match pixels.channel plane with
    | .ok pixels => some (.image pixels provenance)
    | .error _ => none
  | _, strided _ => none
  | _, crop child x0 y0 cols rows => do return .crop (← child.channel plane) x0 y0 cols rows
  | _, extend child border => do return .extend (← child.channel plane) border
  | _, convolve child h kernel anchor border => do
    return .convolve (← child.channel plane) h kernel anchor border
  | _, separable child h row col anchor border => do
    return .separable (← child.channel plane) h row col anchor border

/-- A tree over an image that can be addressed. Filters have a border, and every crop lies inside
its child or is cut from a view with pixels at all coordinates. -/
def Regular : {p : A.Pixel} → View A p → Prop
  | _, image pixels _ => pixels.Addressable
  | _, strided _ | _, convolve _ _ _ _ none => False
  | _, crop child x0 y0 cols rows =>
    child.Regular ∧ (child.Everywhere ∨
      ({ x := x0, y := y0, width := cols, height := rows } : Box).Within child.bounds)
  | _, extend child _ | _, convolve child _ _ _ (some _) | _, separable child .. => child.Regular

theorem Regular.framed {v : View A p} (h : v.Regular) {box : Box}
    (inside : v.Everywhere ∨ box.Within v.bounds) : v.Framed box := by
  induction v generalizing box with
  | image pixels => exact inside.resolve_left id
  | strided => exact h.elim
  | extend | convolve | separable => trivial
  | crop child x0 y0 cols rows ih =>
    apply ih h.1
    rcases inside with everywhere | within
    · exact .inl everywhere
    · refine h.2.imp_right fun part => ?_
      unfold Box.Within at part within ⊢
      simp only [bounds, tiler, Tiler.crop, Tiler.bounds, Box.ofExtent] at within part ⊢
      omega

theorem InStep.framed {L : Likeness A} {K : Pace} {v : View L.arithmetic p} {v' : View A p}
    (h : InStep K L v v') {box : Box} : v.Framed box ↔ v'.Framed box := by
  induction h generalizing box with
  | image selected | strided selected =>
    simp only [Framed, selected.cols_eq, selected.rows_eq]
  | crop _ ih => exact ih
  | extend | convolve | separable => exact Iff.rfl

/-- A tree is in step with the same tree over one of its planes. -/
theorem Regular.channel_inStep {v : View A p} (h : v.Regular) {plane : Nat}
    (hplane : plane < v.planes) : ∃ single, v.channel plane = some single ∧ single.planes = 1 ∧
      InStep (.single v.planes plane hplane) (.same A) v single := by
  induction v with
  | image pixels provenance =>
    obtain ⟨pixels', ok⟩ : ∃ pixels', pixels.channel plane = .ok pixels' :=
      ⟨_, Image.channel_of_lt hplane⟩
    obtain ⟨selected, planes⟩ := Image.selected_of_channel hplane h ok
    refine ⟨.image pixels' provenance, ?_, planes, .image selected (.inr ?_)⟩
    · simp only [channel, ok]
    · exact Nat.zero_lt_of_lt hplane
  | strided => exact h.elim
  | crop child x0 y0 cols rows ih =>
    obtain ⟨single, ok, planes, inStep⟩ := ih h.1 hplane
    exact ⟨.crop single x0 y0 cols rows, by simp [channel, ok], planes, .crop inStep⟩
  | extend child border ih =>
    obtain ⟨single, ok, planes, inStep⟩ := ih h hplane
    exact ⟨.extend single border, by simp [channel, ok], planes, .extend inStep⟩
  | convolve child hq kernel anchor border ih =>
    cases border with
    | none => exact h.elim
    | some border =>
      obtain ⟨single, ok, planes, inStep⟩ := ih h hplane
      exact ⟨.convolve single hq kernel anchor border, by simp [channel, ok], planes,
        .convolve inStep (.inr nofun)⟩
  | separable child hq row col anchor border ih =>
    obtain ⟨single, ok, planes, inStep⟩ := ih h hplane
    exact ⟨.separable single hq row col anchor border, by simp [channel, ok], planes,
      .separable inStep⟩

/-- The single plane of one view is a plane of another: in the image of the box, and pixel by pixel.
The first view returns whenever the second one does. -/
structure IsPlane (single v : View A p) (plane : Nat) (box : Box) : Prop where
  region : ∀ {log log' : Log} {image : Image (A.Value p)},
    (v.region box).run.run log = (.ok image, log') →
    ∃ image', image.channel plane = .ok image' ∧
      ∀ log, ∃ log', (single.region box).run.run log = (.ok image', log')
  get : plane < Extent.modulus → ∀ {x y : Int} {trail trail' : Trail v.Memo} {a : A.Value p},
    v.Keeps trail → (v.get x y plane).run.run trail = (.ok a, trail') →
    ∀ {other : Trail single.Memo}, single.Keeps other →
      ∃ other', (single.get x y 0).run.run other = (.ok a, other')

theorem InStep.isPlane {v single : View A p} {plane : Nat} {hplane : plane < v.planes}
    (inStep : InStep (.single v.planes plane hplane) (.same A) v single)
    (planes : single.planes = 1) {box : Box} (framed : v.Framed box) :
    single.IsPlane v plane box where
  region {log log' image} run := by
    have rendered := (inStep.tiler trivial).region ((Likeness.same A).stores trivial p)
      (.inr fun _ => inStep.framed.1 framed)
    obtain ⟨image', _, _, ⟨selected, planes'⟩, -⟩ := rendered.value (t := log) trivial run
    refine ⟨image', selected.channel (planes'.trans planes), fun log₁ => ?_⟩
    obtain ⟨image₁, log₁', run', ⟨selected₁, planes₁⟩, -⟩ := rendered.value (t := log₁) trivial run
    have same := (selected.channel (planes'.trans planes)).symm.trans
      (selected₁.channel (planes₁.trans planes))
    obtain rfl := Except.ok.inj same
    exact ⟨log₁', run'⟩
  get word {x y trail trail' a} keeps run other keeps' := by
    have zero : (Pace.single v.planes plane hplane).sel.nth 0 = plane := by
      simp [Pace.single, Selection.one, Selection.nth]
    have names : (Pace.single v.planes plane hplane).sel.Names single.sampler.planes 0 := by
      rw [single.sampler_planes]
      exact .inr ⟨by omega, zero.symm ▸ word⟩
    have carried := inStep.sampler.get x y names
    rw [zero] at carried
    obtain ⟨_, other', run', rfl, -⟩ := carried.value ⟨keeps, keeps'⟩ run
    exact ⟨other', run'⟩

/-- The planes of a tree are the trees over the planes, so what a plane shows does not depend on any
other plane of the image. -/
theorem planes_independent {v : View A p} (regular : v.Regular) {plane : Nat}
    (hplane : plane < v.planes) {box : Box} (inside : v.Everywhere ∨ box.Within v.bounds) :
    ∃ single, v.channel plane = some single ∧ single.IsPlane v plane box ∧
      ∀ w : View A p, w.Regular → plane < w.planes → w.channel plane = some single →
        (∀ {log log' log₁ log₁' image image₁}, (v.region box).run.run log = (.ok image, log') →
          (w.region box).run.run log₁ = (.ok image₁, log₁') →
          image.channel plane = image₁.channel plane) ∧
        (plane < Extent.modulus → ∀ {x y trail trail' trail₁ trail₁' a b}, v.Keeps trail →
          w.Keeps trail₁ → (v.get x y plane).run.run trail = (.ok a, trail') →
          (w.get x y plane).run.run trail₁ = (.ok b, trail₁') → a = b) := by
  obtain ⟨single, ok, planes, inStep⟩ := regular.channel_inStep hplane
  have framed := regular.framed inside
  have shown := inStep.isPlane planes framed
  refine ⟨single, ok, shown, fun w regular' hplane' ok' => ?_⟩
  obtain ⟨single', ok'', planes', inStep'⟩ := regular'.channel_inStep hplane'
  obtain rfl : single' = single := Option.some.inj (ok''.symm.trans ok')
  have shown' := inStep'.isPlane planes' (inStep'.framed.2 (inStep.framed.1 framed))
  constructor
  · intro log log' log₁ log₁' image image₁ run run₁
    obtain ⟨plane₁, channel₁, rendered₁⟩ := shown.region run
    obtain ⟨plane₂, channel₂, rendered₂⟩ := shown'.region run₁
    obtain ⟨_, run₁⟩ := rendered₁ []
    obtain ⟨_, run₂⟩ := rendered₂ []
    obtain rfl : plane₁ = plane₂ := by
      have same := congrArg Prod.fst (run₁.symm.trans run₂)
      exact Except.ok.inj same
    rw [channel₁, channel₂]
  · intro word x y trail trail' trail₁ trail₁' a b keeps keeps₁ run run₁
    obtain ⟨_, run₁'⟩ := shown.get word keeps run single'.keeps_empty
    obtain ⟨_, run₂'⟩ := shown'.get word keeps₁ run₁ single'.keeps_empty
    exact Except.ok.inj (congrArg Prod.fst (run₁'.symm.trans run₂'))

section Examples

/-- Two pixels of two planes, mirrored, and filtered by a factor for the rows and one for the
columns. -/
def layered : View .standard PixelKind.i32 :=
  separable (A := .standard) (p := PixelKind.u8) (k := CoeffKind.i32)
    (extend (A := .standard) (p := PixelKind.u8)
      (image (A := .standard) (p := PixelKind.u8)
        { cols := 2, rows := 1, planes := 2, cells := (#[1, 10, 2, 20] : Array UInt8)
          size_cells := rfl } .given) .reflect) PixelKind.product_u8 ([2, 7] : List Int32)
    ([7] : List Int32)
    { col := 0, row := 0, col_lt := by decide, row_lt := by decide } .zero

theorem layered_plane_shown :
    ∃ single image image', layered.channel 1 = some single ∧
      (∃ log, (layered.region { x := 0, y := 0, width := 3, height := 1 }).run.run [] =
        (.ok image, log)) ∧
      image.channel 1 = .ok image' ∧
      ∃ log, (single.region { x := 0, y := 0, width := 3, height := 1 }).run.run [] =
        (.ok image', log) := by
  have regular : layered.Regular := show ((4 : Nat) : Int) ≤ Coordinate.greatest by decide
  have rendered : ((layered.region { x := 0, y := 0, width := 3, height := 1 }).run.run
      []).1.isOk := by
    decide +kernel
  obtain ⟨image, log, run, -⟩ := exists_of_isOk rendered
  have hplane : 1 < layered.planes := by decide
  have inside : layered.Everywhere ∨
      ({ x := 0, y := 0, width := 3, height := 1 } : Box).Within layered.bounds := .inl trivial
  obtain ⟨single, channel, shown, -⟩ := planes_independent regular hplane inside
  obtain ⟨image', plane, rendered'⟩ := shown.region run
  exact ⟨single, image, image', channel, ⟨log, run⟩, plane, rendered' []⟩

end Examples

end View

end ImageViews
