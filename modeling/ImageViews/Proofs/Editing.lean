import ImageViews.Proofs.Tables

/-!
# Edited images

Every step is told by what it does to the table of the image: the step on the image gives the same
answer and leaves an image of the table that the step on the table leaves. So does every sequence of
steps, and the image that it leaves shows the entries of the table in all ways to look them up.
-/
namespace ImageViews

variable {P Q : Format}

/-- The new table if there is room for its values, and the old one otherwise. -/
def Table.allocating {α : Type} (t : Table α) (room : Prop) [Decidable room] (t' : Table α) :
    Edit.Answer × Table α :=
  if room then (.ok true, t') else (.error (.fault .capacity), t)

namespace Edit

/-- What a step answers, and the table that it leaves. -/
def onTable : {P Q : Format} → Edit P Q → Table P.Value → Answer × Table Q.Value
  | _, _, ofCells cols rows planes cells, t =>
    if h : cells.size = cols * rows * planes then
      (.ok true, .ofCells ⟨cells, h⟩)
    else
      (.error (.error (.dataLength cells.size (cols * rows * planes))), t)
  | P, _, replicate cols rows planes value, t =>
    t.allocating (Allocates P.storage.bytes (cols * rows * planes))
      (.ofFn cols rows planes fun _ _ _ => value)
  | P, _, generate cols rows planes f, t =>
    t.allocating (Allocates P.storage.bytes (cols * rows * planes)) (.ofFn cols rows planes f)
  | _, _, set x y p value, t =>
    if t.Inside x y p then (.ok true, t.set x y p value) else (.ok false, t)
  | _, _, setIndex i value, t =>
    if i < t.size then
      (.ok true, t.set (i / t.planes % t.cols) (i / t.planes / t.cols) (i % t.planes) value)
    else
      (.error (.fault .outOfBounds), t)
  | P, _, transpose, t => t.allocating (Allocates P.storage.bytes t.size) t.transpose
  | _, _, channel plane, t =>
    if h : plane < t.planes then
      (.ok true, t.channel ⟨plane, h⟩)
    else
      (.error (.error (.planeIndex plane t.planes)), t)
  | _, _, map f, t => (.ok true, t.map f)
  | _, _, cast convert _, t => (.ok true, t.map convert)

/-- A new image of the step has compact extents. -/
def Compact : {P Q : Format} → Edit P Q → Prop
  | _, _, ofCells cols rows planes _ | _, _, replicate cols rows planes _
  | _, _, generate cols rows planes _ => ImageViews.Compact cols rows planes
  | _, _, _ => True

end Edit

/-- The image was edited as the table was. -/
structure Edit.Follows {α β : Type} (outcome : β × Image α) (outcome' : β × Table α) : Prop where
  answer_eq : outcome.1 = outcome'.1
  represents : outcome.2.Represents outcome'.2
  compact : outcome'.2.Compact

namespace Image.Represents

variable {image : Image P.Value} {t : Table P.Value} {cols rows planes : Nat}
  (h : image.Represents t) (compact : t.Compact)

include h compact

/-- Nothing was changed. -/
theorem unchanged (answer : Edit.Answer) : Edit.Follows (answer, image) (answer, t) :=
  ⟨rfl, h, compact⟩

/-- A new image takes the place of the old one if there is room for it. -/
theorem allocated {room : Prop} [Decidable room] {made : Except Failure (Image P.Value)}
    {t' : Table P.Value} (compact' : t'.Compact)
    (enough : room → ∃ image', made = .ok image' ∧ image'.Represents t')
    (lacking : ¬room → made = .error (.fault .capacity)) :
    Edit.Follows (image.replacedBy made) (t.allocating room t') := by
  unfold Table.allocating
  by_cases memory : room
  · obtain ⟨image', rfl, represents⟩ := enough memory
    rw [if_pos memory]
    exact ⟨rfl, represents, compact'⟩
  · obtain rfl := lacking memory
    rw [if_neg memory]
    exact h.unchanged compact _

theorem follows_ofCells {cells : Array P.Value} (extents : Compact cols rows planes) :
    Edit.Follows (Edit.run (.ofCells cols rows planes cells) image)
      (Edit.onTable (.ofCells cols rows planes cells) t) := by
  have made : Image.ofCells cols rows planes cells =
      if h : cells.size = cols * rows * planes then
        .ok { cols, rows, planes, cells, size_cells := h }
      else .error (.error (.dataLength cells.size (cols * rows * planes))) := by
    unfold Image.ofCells
    rw [extents.count_eq]
    rfl
  simp only [Edit.run, Edit.onTable, made]
  by_cases size : cells.size = cols * rows * planes
  · rw [dif_pos size, dif_pos size]
    exact ⟨rfl, represents_table _, extents⟩
  · rw [dif_neg size, dif_neg size]
    exact h.unchanged compact _

theorem follows_replicate {value : P.Value} (extents : Compact cols rows planes) :
    Edit.Follows (Edit.run (.replicate cols rows planes value) image)
      (Edit.onTable (.replicate cols rows planes value) t) := by
  refine h.allocated compact extents ?_ ?_
  · intro memory
    let cells := Vector.replicate (cols * rows * planes) value
    have made : Image.replicate P.storage.bytes cols rows planes value = .ok (ofVector cells) := by
      unfold Image.replicate
      rw [extents.allocate_eq, if_pos memory]
      rfl
    have same : (ofVector cells).table = .ofFn cols rows planes fun _ _ _ => value := by
      simp [cells, ofVector, table, Table.ofCells, Table.ofFn]
    exact ⟨ofVector cells, congrArg liftM made, same ▸ represents_table _⟩
  · intro memory
    unfold Image.replicate
    rw [extents.allocate_eq, if_neg memory]
    rfl

theorem follows_generate {f : Nat → Nat → Nat → P.Value} (extents : Compact cols rows planes) :
    Edit.Follows (Edit.run (.generate cols rows planes f) image)
      (Edit.onTable (.generate cols rows planes f) t) := by
  refine h.allocated compact extents ?_ ?_
  · intro memory
    have shown : (Image.generate P.storage.bytes cols rows planes fun x y p =>
        .ok (f x y p)).Yields Strict (·.Displays cols rows planes fun x y p => .ok (f x y p)) :=
      generate_yields P.storage.bytes_pos
        (.inr ((extents.storable memory).renderable P.storage.bytes_pos).toCounted)
        fun _ _ _ _ _ _ => .ok _
    obtain ⟨image', made⟩ := shown.tolerable.succeeds
    refine ⟨image', congrArg liftM made, (shown.value made).represents ?_⟩
    intro x y p a hx hy hp ha
    obtain rfl := Except.ok.inj ha
    exact Table.get?_of_inside ⟨hx, hy, hp⟩
  · intro memory
    unfold Image.generate
    rw [extents.allocate_eq, if_neg memory]
    rfl

theorem follows_set {x y p : Nat} {value : P.Value} :
    Edit.Follows (Edit.run (.set x y p value) image) (Edit.onTable (.set x y p value) t) := by
  simp only [Edit.run, Edit.onTable, Image.set?]
  by_cases inside : t.Inside x y p
  · rw [if_pos inside, if_pos (h.inside_iff.2 inside)]
    exact ⟨rfl, h.setCell inside value, compact⟩
  · rw [if_neg inside, if_neg (mt h.inside_iff.1 inside)]
    exact h.unchanged compact _

theorem follows_setIndex {i : Nat} {value : P.Value} :
    Edit.Follows (Edit.run (.setIndex i value) image) (Edit.onTable (.setIndex i value) t) := by
  simp only [Edit.run, Edit.onTable, Image.setIndex, Check.require, h.size_eq]
  by_cases inside : i < t.size
  · obtain ⟨hx, hy, hp, position⟩ := position_of_lt inside
    have index_eq :
        image.index (i / t.planes % t.cols) (i / t.planes / t.cols) (i % t.planes) = i := by
      rw [index, h.cols_eq, h.planes_eq, position]
    have written := h.setCell ⟨hx, hy, hp⟩ value
    rw [index_eq] at written
    rw [if_pos inside, if_pos inside]
    exact ⟨rfl, written, compact⟩
  · rw [if_neg inside, if_neg inside]
    exact h.unchanged compact _

theorem follows_transpose :
    Edit.Follows (Edit.run .transpose image) (Edit.onTable .transpose t) := by
  have compact' := h.compact_iff.2 compact
  have size : t.size = image.cols * image.rows * image.planes := by
    rw [← image.size_cells, h.size_eq]
  refine h.allocated compact compact.transpose ?_ ?_
  · intro memory
    rw [size] at memory
    obtain ⟨image', log', run, displays⟩ := transposed_displays compact' memory []
    rw [h.cols_eq, h.rows_eq, h.planes_eq] at displays
    have represents : image'.Represents t.transpose := by
      refine Displays.represents displays ?_
      intro x y p a _ _ _ ha
      rwa [Table.get?_transpose, ← h.get?_eq, ← value_eq_get?]
    exact ⟨image', congrArg Prod.fst run, represents⟩
  · intro memory
    rw [size] at memory
    exact congrArg Prod.fst (transposed_capacity compact' memory [])

theorem follows_channel {plane : Nat} :
    Edit.Follows (Edit.run (.channel plane) image) (Edit.onTable (.channel plane) t) := by
  simp only [Edit.run, Edit.onTable]
  by_cases inside : plane < t.planes
  · have inside' : plane < image.planes := h.planes_eq ▸ inside
    rw [dif_pos inside, channel_of_lt inside']
    exact ⟨rfl, h.plane inside' inside, compact.channel inside⟩
  · have outside : ¬plane < image.planes := h.planes_eq ▸ inside
    rw [dif_neg inside, Image.channel, if_neg outside, h.planes_eq]
    exact h.unchanged compact _

end Image.Represents

/-- What a step does to an image is what it does to the table. -/
theorem Edit.run_follows (edit : Edit P Q) {image : Image P.Value} {t : Table P.Value}
    (h : image.Represents t) (compact : t.Compact) (extents : edit.Compact) :
    Follows (edit.run image) (edit.onTable t) := by
  cases edit with
  | ofCells => exact h.follows_ofCells compact extents
  | replicate => exact h.follows_replicate compact extents
  | generate => exact h.follows_generate compact extents
  | set => exact h.follows_set compact
  | setIndex => exact h.follows_setIndex compact
  | transpose => exact h.follows_transpose compact
  | channel => exact h.follows_channel compact
  | map f => exact ⟨rfl, h.map f, compact⟩
  | cast convert => exact ⟨rfl, h.map convert, compact⟩

/-- A step that fails keeps the kind of the values and leaves the image as it was. -/
theorem Edit.run_failed (edit : Edit P Q) {image : Image P.Value} {cause : Failure}
    (failed : (edit.run image).1 = .error cause) : P = Q ∧ HEq (edit.run image).2 image := by
  -- Only a conversion changes the kind of the values, and no conversion fails.
  have kept {α : Type} {image : Image α} {made : Except Failure (Image α)}
      (failed : (image.replacedBy made).1 = .error cause) :
      HEq (image.replacedBy made).2 image := by
    cases made with
    | ok => cases failed
    | error => exact HEq.rfl
  cases edit with
  | ofCells | replicate | generate | setIndex | transpose | channel => exact ⟨rfl, kept failed⟩
  | set x y p value =>
    simp only [run] at failed
    cases written : image.set? x y p value with
    | some | none =>
      rw [written] at failed
      cases failed
  | map | cast => cases failed

namespace Edits

/-- What the steps answer, and the table that they leave. -/
def onTable : {P Q : Format} → Edits P Q → Table P.Value → List Edit.Answer × Table Q.Value
  | _, _, nil, t => ([], t)
  | _, _, cons edit edits, t =>
    let (answer, t) := edit.onTable t
    let (answers, t) := edits.onTable t
    (answer :: answers, t)

/-- The new images of the steps have compact extents. -/
def Compact : {P Q : Format} → Edits P Q → Prop
  | _, _, nil => True
  | _, _, cons edit edits => edit.Compact ∧ edits.Compact

/-- What steps do to an image is what they do to the table. -/
theorem run_follows (edits : Edits P Q) {image : Image P.Value} {t : Table P.Value}
    (h : image.Represents t) (compact : t.Compact) (extents : edits.Compact) :
    Edit.Follows (edits.run image) (edits.onTable t) := by
  induction edits with
  | nil => exact ⟨rfl, h, compact⟩
  | cons edit edits ih =>
    obtain ⟨first, rest⟩ := extents
    obtain ⟨answer, represents, compact⟩ := edit.run_follows h compact first
    obtain ⟨answers, represents, compact⟩ := ih represents compact rest
    exact ⟨congr (congrArg List.cons answer) answers, represents, compact⟩

/-- Two transpositions. -/
def turnTwice : Edits P P := .cons .transpose (.cons .transpose .nil)

theorem turnTwice_onTable (t : Table P.Value) : (turnTwice.onTable t).2 = t := by
  have turned : t.transpose.size = t.size := by
    unfold Table.size Table.transpose
    rw [Nat.mul_comm t.rows]
  have once (t : Table P.Value) : (Edit.transpose.onTable t).2 =
      if Allocates P.storage.bytes t.size then t.transpose else t :=
    apply_ite Prod.snd _ _ _
  change (Edit.transpose.onTable (Edit.transpose.onTable t).2).2 = t
  rw [once t]
  by_cases memory : Allocates P.storage.bytes t.size
  · rw [if_pos memory, once, turned, if_pos memory]
    rfl
  · rw [if_neg memory, once, if_neg memory]

end Edits

/-- In all ways to look up a pixel the image shows the entries of the table. -/
structure Image.Presents {α : Type} (image : Image α) (t : Table α) : Prop where
  size_eq : image.cells.size = t.cols * t.rows * t.planes
  represents : image.Represents t
  fetch_eq : ∀ {x y p : Nat} {a : α}, t.get? x y p = some a → image.fetch x y p = .ok a
  get_run : ∀ {σ : Type} {x y p : Nat} {a : α} (s : σ), t.get? x y p = some a →
    ((Sampler.image image).get x y p).run.run s = (.ok a, s)
  grids : ∃ grid, image.strided = .ok grid ∧ ∀ {x y p : Nat} {a : α}, t.get? x y p = some a →
    grid.get x y p = .ok a ∧ grid.transpose.get y x p = .ok a

theorem Image.Represents.presents {α : Type} {image : Image α} {t : Table α}
    (h : image.Represents t) (compact : t.Compact) : image.Presents t := by
  have displays := h.displays compact
  have compact' := h.compact_iff.2 compact
  have sound := image.strided_sound displays.addressable (strided_eq compact')
  have shown {x y p : Nat} {a : α} (entry : t.get? x y p = some a) :
      image.Inside x y p ∧ image.value x y p = .ok a := by
    rw [← h.get?_eq] at entry
    refine ⟨?_, (value_eq_get? x y p).2 entry⟩
    by_cases inside : image.Inside x y p
    · exact inside
    · rw [get?_eq_none inside] at entry
      cases entry
  have fetched {x y p : Nat} {a : α} (entry : t.get? x y p = some a) :
      image.fetch x y p = .ok a := by
    obtain ⟨⟨hx, hy, hp⟩, value⟩ := shown entry
    rw [fetch_eq_value displays.addressable hx hy hp, value]
  refine ⟨h.size_eq, h, fetched, ?_, image.grid, strided_eq compact', ?_⟩
  · intro σ x y p a s entry
    have same : (Sampler.image image : Sampler σ α).get x y p = liftM (image.fetch x y p) := by
      simp [Sampler.image]
    rw [same, fetched entry]
    rfl
  · intro x y p a entry
    obtain ⟨⟨hx, hy, hp⟩, value⟩ := shown entry
    have holds : image.Holds x y := by
      unfold Holds
      omega
    have stored : image.grid.value x y p = .ok a := by
      rw [strided_value displays.addressable (strided_eq compact') holds hp, value]
    constructor
    · rw [Strided.get_eq_value sound hx hy hp, stored]
    · rw [Strided.get_eq_value sound.transpose hy hx hp, Strided.value_transpose hx hy, stored]

namespace Edits

/-- The image that steps leave presents the table that they leave, and the answers of the steps are
those for the table. A further step that fails changes nothing, and two transpositions restore the
image. -/
theorem run_presents_table (edits : Edits P Q) {image : Image P.Value}
    (compact : ImageViews.Compact image.cols image.rows image.planes) (extents : edits.Compact) :
    (edits.run image).1 = (edits.onTable image.table).1 ∧
      (edits.run image).2.Presents (edits.onTable image.table).2 ∧
      (∀ {R : Format} (edit : Edit Q R) {cause : Failure},
        (edit.run (edits.run image).2).1 = .error cause →
        Q = R ∧ HEq (edit.run (edits.run image).2).2 (edits.run image).2) ∧
      (turnTwice.run (edits.run image).2).2 = (edits.run image).2 := by
  obtain ⟨answer, represents, compact⟩ := edits.run_follows image.represents_table compact extents
  refine ⟨answer, represents.presents compact, fun edit _ failed => edit.run_failed failed, ?_⟩
  have turned := turnTwice.run_follows represents compact ⟨trivial, trivial, trivial⟩
  refine Image.Represents.unique ?_ represents compact
  rw [← turnTwice_onTable (edits.onTable image.table).2]
  exact turned.represents

section Examples

/-- No pixels. -/
def canvas : Image Int32 := { cols := 0, rows := 0, planes := 0, cells := #[], size_cells := rfl }

/-- Two planes that are written to, turned, reduced to one of them and cast. On the way come too few
cells, a position and an index outside, and a plane that is not there. -/
def sketch : Edits (.standard .i32) (.standard .u8) :=
  .cons (.ofCells (P := .standard .i32) 2 1 2 (#[1, 2, 3] : Array Int32)) <|
  .cons (.generate (P := .standard .i32) 2 3 2 fun x y p => Int32.ofNat (100 * y + 10 * x + p)) <|
  .cons (.set (P := .standard .i32) 1 2 1 (300 : Int32)) <|
  .cons (.set (P := .standard .i32) 2 0 0 (7 : Int32)) <|
  .cons (.setIndex (P := .standard .i32) 12 (0 : Int32)) <|
  .cons .transpose <|
  .cons (.channel 2) <|
  .cons (.channel 1) <|
  .cons (.cast _ rfl) .nil

theorem sketch_presents_table :
    (sketch.run canvas).1.map (·.isOk) =
        [false, true, true, true, false, true, false, true, true] ∧
      (sketch.run canvas).2.fetch 2 1 0 = .ok (255 : UInt8) ∧
      (sketch.run canvas).2.fetch 1 1 0 = .ok (111 : UInt8) := by
  have compact : ImageViews.Compact canvas.cols canvas.rows canvas.planes := by decide
  have extents : sketch.Compact := by
    have new : ImageViews.Compact 2 1 2 ∧ ImageViews.Compact 2 3 2 := by decide
    exact ⟨new.1, new.2, trivial, trivial, trivial, trivial, trivial, trivial, trivial, trivial⟩
  obtain ⟨answers, presents, -⟩ := sketch.run_presents_table compact extents
  rw [answers]
  exact ⟨by decide +kernel, presents.fetch_eq rfl, presents.fetch_eq rfl⟩

end Examples

end Edits

end ImageViews
