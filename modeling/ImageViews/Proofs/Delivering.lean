import ImageViews.Proofs.Giving
import ImageViews.Proofs.Refusals

/-!
# Boxes of pixels with a property

A tiler delivers pixels with a property when every pixel that it paints has it, into whatever
destination and from whatever box. Buffers start out blank, so the images that are made on the way
have the property throughout if the blank pixel has it, and what is painted from them has it again.
The passes of a separable filter need a property for the pixels in between. They fit the grids that
are made for them, so nothing but the arithmetic decides which faults are left besides spatial ones.
-/
namespace ImageViews

variable {α β σ π : Type} {n : Nat} {E : Fault → Prop} {P : α → Prop}

/-- Refusals and the faults in `E` are allowed. -/
def Failure.Allowed (E : Fault → Prop) : Failure → Prop
  | .error _ => True
  | .fault cause => E cause

theorem Failure.Tolerated.allowed :
    ∀ {cause}, Failure.Tolerated E cause → Failure.Allowed E cause
  | .error _, h => h.elim
  | .fault _, h => h

section Steps

variable {check : Check α}

theorem Yields.allowed {m : ExceptT Failure (StateM σ) α} {s : σ} {Q : α → σ → Prop}
    (h : Yields (Failure.Tolerated E) m s Q) : Yields (Failure.Allowed E) m s Q :=
  h.weaken fun _ tolerated => tolerated.allowed

/-- What every value of the evaluation has may be used as well. -/
theorem Yields.known {m : ExceptT Failure (StateM σ) α} {s : σ} {E : Failure → Prop}
    {Q : α → σ → Prop} {R : α → Prop} (h : Yields E m s Q) (known : Unrefused m R) :
    Yields E m s fun a s' => Q a s' ∧ R a := by
  unfold Yields at h ⊢
  rcases hm : m.run.run s with ⟨_ | a, s'⟩ <;> rw [hm] at h
  · exact h
  · exact ⟨h, (known s).value hm⟩

theorem Lax.bind (lax : Lax E) (h : check.Spatial) {f : α → ExceptT Failure (StateM σ) β} {s : σ}
    {Q : β → σ → Prop} (hf : ∀ a, check = .ok a → Yields (Failure.Allowed E) (f a) s Q) :
    Yields (Failure.Allowed E) ((liftM check : ExceptT Failure (StateM σ) α) >>= f) s Q := by
  cases check with
  | ok a => exact hf a rfl
  | error fault => exact lax fault (h fault rfl)

/-- After the test of a handle, the handle takes the box. -/
theorem Handle.accept_bind {handle : Handle n} {box : Box} {planes : Nat}
    {f : Unit → Paint σ α n Unit} {s : Vector α n × σ} {Q : Unit → Vector α n × σ → Prop}
    (hf : handle.Takes box planes → Yields (Failure.Allowed E) (f ()) s Q) :
    Yields (Failure.Allowed E) ((liftM (handle.accept box planes) : Paint σ α n Unit) >>= f) s
      Q := by
  cases tested : handle.accept box planes with
  | ok => exact hf (accept_eq_ok.1 tested)
  | error cause => trivial

/-- What every visit keeps holds after the last one. -/
theorem Lax.sweep (lax : Lax E) {step : π → Check π} (spatial : ∀ place, (step place).Spatial)
    {visit : Nat → π → Unit → ExceptT Failure (StateM σ) Unit} {J : σ → Prop}
    (hvisit : ∀ i place s, J s → Yields (Failure.Allowed E) (visit i place ()) s fun _ => J)
    (k i : Nat) (place : π) {s : σ} (h : J s) :
    Yields (Failure.Allowed E) (ImageViews.sweep step visit k i place ()) s fun _ => J := by
  refine (sweep_keeps (R := fun _ _ _ => J) (fun i place _ s _ hs => ?_) h).mono
    fun _ _ ⟨_, kept⟩ => kept
  apply (hvisit i place s hs).mono
  intro _ s' hs'
  exact (Yields.check ((lax.yields (spatial place)).mono fun _ _ => hs')).allowed

end Steps

/-- Every cell is as it was, or has a value with the property `P`. -/
def Overwrites (P : α → Prop) (cells cells' : Vector α n) : Prop :=
  ∀ i (_ : i < n), cells'[i] = cells[i] ∨ P cells'[i]

namespace Overwrites

variable {cells cells' : Vector α n}

theorem refl (cells : Vector α n) : Overwrites P cells cells := fun _ _ => .inl rfl

theorem set (h : Overwrites P cells cells') (cell : Fin n) {a : α} (ha : P a) :
    Overwrites P cells (cells'.set cell a cell.isLt) := by
  intro i hi
  rw [Vector.getElem_set]
  split
  · exact .inr ha
  · exact h i hi

/-- Where all cells were blank, they have the property of a blank cell. -/
theorem of_blank {blank : α} (hblank : P blank)
    (h : Overwrites P (Vector.replicate n blank) cells') : ∀ a ∈ cells'.toArray, P a := by
  intro a ha
  obtain ⟨i, hi, rfl⟩ := Array.getElem_of_mem ha
  rw [Vector.getElem_toArray]
  rcases h i (by simpa using hi) with same | painted
  · rwa [same, Vector.getElem_replicate]
  · exact painted

end Overwrites

/-- A handle is filled with the pixels that are evaluated for it. -/
theorem Handle.fill_gives (lax : Lax E) (handle : Handle n) {addressing : Addressing}
    (start : addressing.Place) {value : addressing.Place → Probe σ α} {I : σ → Prop}
    (h : ∀ place st, I st → Yields E (value place) st fun a st' => I st' ∧ P a)
    (cells : Vector α n) {st : σ} (hst : I st) :
    Yields (Failure.Allowed E) (handle.fill addressing start value) (cells, st) fun _ s =>
      Overwrites P cells s.1 ∧ I s.2 := by
  refine lax.sweep addressing.nextRow_spatial (fun y row s hs => ?_) _ _ _ ⟨.refl cells, hst⟩
  refine lax.sweep addressing.nextCol_spatial (fun x col s hs => ?_) _ _ _ hs
  refine lax.sweep addressing.nextPlane_spatial (fun p place s hs => ?_) _ _ _ hs
  obtain ⟨painted, st⟩ := s
  obtain ⟨overwrites, hst⟩ := hs
  apply Yields.bind
  apply (Yields.probe ((h place st hst).mono _)).allowed
  rintro a st' ⟨hst', ha⟩
  apply lax.bind (handle.cell_spatial x y p)
  intro cell _
  exact Yields.modify ⟨overwrites.set cell ha, hst'⟩

theorem Sampler.Gives.paint (lax : Lax E) {I : σ → Prop} {s : Sampler σ α} (h : s.Gives E I P)
    (handle : Handle n) (box : Box) (cells : Vector α n) {st : σ} (hst : I st) :
    Yields (Failure.Allowed E) (s.paint handle box) (cells, st) fun _ s' =>
      Overwrites P cells s'.1 ∧ I s'.2 := by
  apply Handle.accept_bind
  intro _
  apply lax.bind (h.place_spatial box.x box.y 0)
  intro start _
  exact handle.fill_gives lax start h.read cells hst

namespace Image

variable {storage : Storage α} {cols rows planes : Nat}

theorem blank_gives (lax : Lax E) (hblank : P storage.blank) (cols rows planes : Nat) :
    (blank storage cols rows planes).Yields E fun image => ∀ a ∈ image.cells, P a := by
  refine Check.Yields.bind ((lax.yields (allocate_spatial _ _ _ _)).mono ?_)
  intro _ _
  exact Check.Yields.ok (Overwrites.of_blank hblank (.refl _))

theorem tabulate_gives {f : Nat → Check α} (h : ∀ i, (f i).Yields E P) (m : Nat) :
    (tabulate f m).Yields E fun cells => ∀ a ∈ cells.toArray, P a := by
  apply (tabulate_yields fun i _ => (h i).tolerable).mono
  intro cells shows a ha
  obtain ⟨i, hi, rfl⟩ := Array.getElem_of_mem ha
  have made := shows i (by simpa using hi)
  rw [fetchCell_of_lt hi] at made
  exact (h i).value made.symm

theorem generate_gives (lax : Lax E) {f : Nat → Nat → Nat → Check α}
    (h : ∀ x y p, (f x y p).Yields E P) (bytes cols rows planes : Nat) :
    (generate bytes cols rows planes f).Yields E fun image => ∀ a ∈ image.cells, P a := by
  refine Check.Yields.bind ((lax.yields (allocate_spatial _ _ _ _)).mono ?_)
  intro _ _
  rw [tabulatePixels_eq]
  exact Check.Yields.bind ((tabulate_gives (fun _ => h _ _ _) _).mono fun _ all => .ok all)

/-- A new image is blank where nothing is painted. -/
theorem render_gives (lax : Lax E) (hblank : P storage.blank)
    {paint : Handle (cols * rows * planes) → Paint Log α (cols * rows * planes) Unit}
    (h : ∀ handle, handle.Takes { width := cols, height := rows } planes → ∀ cells log,
      Yields (Failure.Allowed E) (paint handle) (cells, log) fun _ s => Overwrites P cells s.1)
    (log : Log) :
    Yields (Failure.Allowed E) (render storage cols rows planes paint) log fun image _ =>
      ∀ a ∈ image.cells, P a := by
  apply lax.bind (allocate_spatial _ _ _ _)
  intro _ _
  apply lax.bind (Handle.whole_spatial _ _ _ _)
  intro whole made
  apply Yields.bind
  apply Yields.onto
  apply (h whole (Handle.whole_takes made) _ log).mono
  intro _ s overwrites
  exact Yields.pure (overwrites.of_blank hblank)

end Image

namespace Tiler

/-- The pixels that the tiler paints have the property `P`. -/
def Delivers (E : Fault → Prop) (P : α → Prop) (t : Tiler α) : Prop :=
  ∀ ⦃n : Nat⦄ (handle : Handle n) (box : Box) (cells : Vector α n) (log : Log),
    Yields (Failure.Allowed E) (t.rasterize handle box) (cells, log) fun _ s =>
      Overwrites P cells s.1

variable {t : Tiler α} {storage : Storage α} (lax : Lax E)

include lax

theorem strided_delivers {grid : Strided α} (h : ∀ a ∈ grid.cells, P a) :
    (strided grid).Delivers E P := by
  intro n handle box cells log
  have gives : (Sampler.strided grid : Sampler Log α).Gives E (fun _ => True) P :=
    Sampler.strided_gives lax h
  exact (gives.paint lax handle box cells trivial).mono fun _ _ => And.left

theorem image_delivers {image : Image α} (h : ∀ a ∈ image.cells, P a) :
    (Tiler.image image).Delivers E P := by
  intro n handle box cells log
  apply lax.bind image.strided_spatial
  intro grid made
  obtain rfl := image.strided_yields.value made
  exact strided_delivers lax h handle box cells log

theorem Delivers.crop (h : t.Delivers E P) (x0 y0 : Int) (cols rows : Nat) :
    (t.crop x0 y0 cols rows).Delivers E P := by
  intro n handle box cells log
  apply lax.bind (box.translate_spatial x0 y0)
  intro moved _
  exact h handle moved cells log

theorem Delivers.region (h : t.Delivers E P) (hblank : P storage.blank) (box : Box) (log : Log) :
    Yields (Failure.Allowed E) (t.region storage box) log fun image _ => ∀ a ∈ image.cells, P a :=
  Image.render_gives lax hblank (fun handle _ => h handle box) log

theorem Delivers.paintPart (h : t.Delivers E P) (box part : Box) (whole : Handle n)
    (cells : Vector α n) (log : Log) :
    Yields (Failure.Allowed E) (t.paintPart box part whole) (cells, log) fun _ s =>
      Overwrites P cells s.1 := by
  apply lax.bind (Coordinate.sub_spatial _ _)
  intro left _
  apply lax.bind (Coordinate.sub_spatial _ _)
  intro top _
  apply lax.bind (whole.window_spatial _ _ _ _)
  intro window _
  exact h window part cells log

theorem Delivers.padded (h : t.Delivers E P) (hblank : P storage.blank) (box : Box) (log : Log) :
    Yields (Failure.Allowed E) (t.padded storage box) log fun image _ =>
      ∀ a ∈ image.cells, P a := by
  apply lax.bind (box.intersect_spatial t.bounds)
  intro common _
  cases common with
  | none => exact (Yields.check (Image.blank_gives lax hblank _ _ _)).allowed
  | some inner =>
    exact Image.render_gives lax hblank (fun handle _ => h.paintPart lax box inner handle) log

omit lax in
theorem borderIndices_spatial (border : Border) (first : Int) (length len : Nat) :
    (borderIndices border first length len).Spatial :=
  .bind (reserve_spatial _ _) fun _ => tabulate_spatial (fun _ =>
    .bind (Coordinate.add_spatial _ _) fun _ => border.index_spatial _ _) _

omit lax in
theorem spanBox_spatial (cols rows : Nat × Nat) : (spanBox cols rows).Spatial :=
  .bind (Coordinate.add_spatial _ _) fun _ => .bind (Coordinate.add_spatial _ _) fun _ =>
    Box.ofCorners_spatial _ _

theorem pick_gives {pixels : Image α} (h : ∀ a ∈ pixels.cells, P a) (xs ys : Array Nat)
    (x0 y0 x y p : Nat) : (pick pixels xs ys x0 y0 x y p).Yields E P := by
  refine Check.Yields.bind ((lax.yields (fetchCell_spatial _ _)).mono ?_)
  intro column _
  refine Check.Yields.bind ((lax.yields (Extent.sub_spatial _ _)).mono ?_)
  intro x _
  refine Check.Yields.bind ((lax.yields (fetchCell_spatial _ _)).mono ?_)
  intro row _
  refine Check.Yields.bind ((lax.yields (Extent.sub_spatial _ _)).mono ?_)
  intro y _
  exact Sampler.fetch_gives lax h _ _ _

theorem Delivers.mapped (h : t.Delivers E P) (hblank : P storage.blank) (border : Border)
    (box : Box) (log : Log) :
    Yields (Failure.Allowed E) (t.mapped border storage box) log fun image _ =>
      ∀ a ∈ image.cells, P a := by
  apply lax.bind (borderIndices_spatial _ _ _ _)
  intro xs _
  apply lax.bind (borderIndices_spatial _ _ _ _)
  intro ys _
  apply lax.bind (spanBox_spatial _ _)
  intro source _
  apply Yields.bind
  apply (h.region lax hblank source log).mono
  intro pixels log' all
  exact (Yields.check (Image.generate_gives lax (pick_gives lax all _ _ _ _) _ _ _ _)).allowed

theorem Delivers.extend (h : t.Delivers E P) (hblank : P storage.blank) (border : Border)
    (box : Box) (log : Log) :
    Yields (Failure.Allowed E) (t.extend border storage box) log fun image _ =>
      ∀ a ∈ image.cells, P a := by
  unfold Tiler.extend
  split
  · exact (Yields.check (Image.blank_gives lax hblank _ _ _)).allowed
  apply lax.bind (t.bounds.containsBox_spatial box)
  intro inside _
  split
  · exact h.region lax hblank box log
  split
  · exact h.padded lax hblank box log
  · exact h.mapped lax hblank border box log

theorem Delivers.extended (h : t.Delivers E P) (hblank : P storage.blank) (border : Border) :
    (t.extended border storage).Delivers E P := by
  intro n handle box cells log
  apply Handle.accept_bind
  intro _
  apply Yields.bind
  apply Yields.render
  apply (h.extend lax hblank border box log).mono
  intro image log' all
  exact image_delivers lax all handle _ cells log'

omit lax in
/-- The grid of an image has the cells and the extent of the image. -/
theorem strided_extent {image : Image α} {grid : Strided α} (h : image.strided = .ok grid) :
    grid.cells = image.cells ∧ grid.cols = image.cols ∧ grid.rows = image.rows := by
  obtain rfl := image.strided_yields.value h
  exact ⟨rfl, rfl, rfl⟩

omit lax in
/-- The margins around the anchor are as wide as the factors without one coefficient. -/
theorem growBox_extent {cols rows : Nat} {anchor : Anchor cols rows} {box grown : Box}
    (h : growBox anchor box = .ok grown) :
    grown.width + 1 = box.width + cols ∧ grown.height + 1 = box.height + rows := by
  obtain rfl := (growBox_yields (E := Lenient) Lenient.tolerant).value h
  have := anchor.col_lt
  have := anchor.row_lt
  simp only [Box.windows]
  omega

section Filters

variable {A : Arithmetic} {p : A.Pixel} {k : A.Coeff} {q : A.Pixel} {P : A.Value p → Prop}
  {Q : A.Value q → Prop} {t : Tiler (A.Value p)} {hq : A.product p k = some q}

theorem Delivers.windowsPatch (h : t.Delivers E P) (hblank : P (A.blank p)) {cols rows : Nat}
    (anchor : Anchor cols rows) (border : Option Border) (box : Box) (log : Log) :
    Yields (Failure.Allowed E) (t.windowsPatch anchor border box) log fun patch _ =>
      ∀ a ∈ patch.image.cells, P a := by
  have source : (windowsBox anchor box).Spatial :=
    .bind (Coordinate.sub_spatial _ _) fun _ => .bind (Coordinate.sub_spatial _ _) fun _ =>
      .bind (Extent.add_spatial _ _) fun _ => .bind (Extent.sub_spatial _ _) fun _ =>
      .bind (Extent.add_spatial _ _) fun _ => .bind (Extent.sub_spatial _ _) fun _ => .ok _
  apply lax.bind source
  intro box' _
  have rendered : Yields (Failure.Allowed E) (t.regionWith border (A.storage p) box') log
      fun image _ => ∀ a ∈ image.cells, P a := by
    cases border with
    | none => exact h.region lax hblank box' log
    | some border => exact h.extend lax hblank border box' log
  apply Yields.bind
  apply rendered.mono
  intro image log' all
  apply (Yields.check _).allowed
  refine Check.Yields.bind ((lax.yields (Coordinate.checked_spatial _)).mono fun _ _ => ?_)
  exact Check.Yields.bind ((lax.yields (Coordinate.checked_spatial _)).mono fun _ _ => .ok all)

theorem Delivers.convolve (h : t.Delivers E P) (hblank : P (A.blank p))
    {kernel : Kernel (A.Factor k)} (sums : Sums E P Q hq kernel.reading (A.start q))
    (anchor : Anchor kernel.cols kernel.rows) (border : Option Border) :
    (t.convolve hq kernel anchor border).Delivers E Q := by
  intro n handle box cells log
  apply Handle.accept_bind
  intro _
  apply Yields.bind
  apply Yields.modify
  apply Yields.bind
  apply Yields.render
  apply (h.windowsPatch lax hblank anchor border box _).mono
  intro patch log' all
  have gives : (Sampler.image patch.image : Sampler Log (A.Value p)).Gives E (fun _ => True) P :=
    Sampler.image_gives lax all
  have filtered := (gives.crop lax patch.dx patch.dy t.cols t.rows).convolve lax sums anchor none
    (fun none => (none rfl).elim)
  exact (filtered.paint lax handle box cells trivial).mono fun _ _ => And.left

/-- A pass along the rows of a grid that has the extent it asks for. -/
theorem convolveRows_delivers {grid : Strided (A.Value p)} (h : ∀ a ∈ grid.cells, P a)
    {factor : List (A.Factor k)} (sums : Sums E P Q hq factor.reverse (A.start q))
    {handle : Handle n} (cols : grid.cols + 1 = handle.cols + factor.length)
    (rows : grid.rows = handle.rows) (cells : Vector (A.Value q) n) (log : Log) :
    Yields (Failure.Allowed E) (convolveRows grid hq factor handle) (cells, log) fun _ s =>
      Overwrites Q cells s.1 := by
  apply lax.bind (Extent.add_spatial _ _)
  intro read hread
  obtain ⟨-, rfl⟩ := Extent.checked_eq_ok.1 hread
  apply lax.bind (Extent.add_spatial _ _)
  intro needed hneeded
  obtain ⟨-, rfl⟩ := Extent.checked_eq_ok.1 hneeded
  rw [Check.require_eq_ok.2 cols, Check.require_eq_ok.2 rows]
  have gives : (Sampler.strided grid : Sampler Log (A.Value p)).Gives E (fun _ => True) P :=
    Sampler.strided_gives lax h
  refine (handle.fill_gives (I := fun _ => True) lax _ (fun place st hst => ?_) cells
    trivial).mono fun _ _ => And.left
  exact gives.correlateRow lax place sums hst

theorem scalePass_delivers {image : Image (A.Value p)} (h : ∀ a ∈ image.cells, P a)
    (scales : ∀ pixel, P pixel → (A.scale hq pixel (A.one k)).Yields E Q) (handle : Handle n)
    (cells : Vector (A.Value q) n) (log : Log) :
    Yields (Failure.Allowed E)
      (handle.fill .coordinates ({} : Position) fun (place : Position) => do
        let pixel ← image.fetch (Extent.ofCoordinate place.x) (Extent.ofCoordinate place.y)
          (Extent.ofCoordinate place.p)
        A.scale hq pixel (A.one k)) (cells, log) fun _ s => Overwrites Q cells s.1 := by
  refine (handle.fill_gives (I := fun _ => True) lax _ (fun place st hst => ?_) cells trivial).mono
    fun _ _ => And.left
  refine Yields.bind (Yields.probe_check ((Sampler.fetch_gives lax h _ _ _).mono ?_))
  intro pixel hpixel
  exact Yields.probe_check ((scales pixel hpixel).mono fun _ ha => ⟨hst, ha⟩)

theorem rowPass_delivers {image : Image (A.Value p)} (h : ∀ a ∈ image.cells, P a)
    {factor : List (A.Factor k)} (sums : Sums E P Q hq factor.reverse (A.start q))
    {handle : Handle n} (cols : image.cols + 1 = handle.cols + factor.length)
    (rows : image.rows = handle.rows) (cells : Vector (A.Value q) n) (log : Log) :
    Yields (Failure.Allowed E) (do convolveRows (← image.strided) hq factor handle) (cells, log)
      fun _ s => Overwrites Q cells s.1 := by
  apply lax.bind image.strided_spatial
  intro grid made
  obtain ⟨grid_cells, grid_cols, grid_rows⟩ := strided_extent made
  apply convolveRows_delivers lax (grid_cells ▸ h) sums <;> omega

theorem colPass_delivers {image : Image (A.Value p)} (h : ∀ a ∈ image.cells, P a)
    {factor : List (A.Factor k)} (sums : Sums E P Q hq factor.reverse (A.start q))
    {handle : Handle n} (rows : image.rows + 1 = handle.rows + factor.length)
    (cols : image.cols = handle.cols) (cells : Vector (A.Value q) n) (log : Log) :
    Yields (Failure.Allowed E)
      (do convolveRows (← image.strided).transpose hq factor handle.transpose) (cells, log)
      fun _ s => Overwrites Q cells s.1 := by
  apply lax.bind image.strided_spatial
  intro grid made
  obtain ⟨grid_cells, grid_cols, grid_rows⟩ := strided_extent made
  have all : ∀ a ∈ grid.transpose.cells, P a := grid_cells ▸ h
  apply convolveRows_delivers lax all sums <;>
    simp only [Strided.transpose, Handle.transpose] <;> omega

/-- What the passes of a separable filter make of pixels with the property `P`. The pixels between
two passes have a property of their own, which a blank buffer has too. -/
structure Passes (E : Fault → Prop) (P : A.Value p → Prop) (Q : A.Value q → Prop)
    (hq : A.product p k = some q) (row col : List (A.Factor k)) : Prop where
  plain : row = [] → col = [] → ∀ pixel, P pixel → (A.scale hq pixel (A.one k)).Yields E Q
  alongRow : row ≠ [] → col = [] → Sums E P Q hq row.reverse (A.start q)
  alongCol : row = [] → col ≠ [] → Sums E P Q hq col.reverse (A.start q)
  both : row ≠ [] → col ≠ [] → ∃ R : A.Value q → Prop, R (A.blank q) ∧
    Sums E P R hq row.reverse (A.start q) ∧
    Sums E R Q (A.product_closed hq) col.reverse (A.start q)

variable {row col : List (A.Factor k)} {anchor : Anchor (max 1 row.length) (max 1 col.length)}

/-- The grids that are rendered for the passes have the extent that the passes ask for. -/
theorem Delivers.passes (h : t.Delivers E P) (serves : t.Serves) (hblank : P (A.blank p))
    (passes : Passes E P Q hq row col) (border : Border) {handle : Handle n} {box : Box}
    (takes : handle.Takes box t.planes) (cells : Vector (A.Value q) n) (log : Log) :
    Yields (Failure.Allowed E) (t.separablePasses hq row col anchor border handle box) (cells, log)
      fun _ s => Overwrites Q cells s.1 := by
  obtain ⟨cols_eq, rows_eq, -⟩ := takes
  unfold separablePasses
  split
  next none =>
    obtain ⟨no_row, no_col⟩ : row = [] ∧ col = [] := by simpa using none
    apply Yields.bind
    apply Yields.render
    apply (h.extend lax hblank border box log).mono
    intro source log all
    exact scalePass_delivers lax all (passes.plain no_row no_col) handle cells log
  next some =>
  apply lax.bind (box.grow_spatial _ _ _ _)
  intro grown made
  obtain ⟨width, height⟩ := growBox_extent made
  apply Yields.bind
  apply Yields.render
  apply ((h.extend lax hblank border grown log).known (serves.extend border _ grown)).mono
  rintro source log ⟨all, source_cols, source_rows, -⟩
  split
  next no_col =>
    obtain rfl : col = [] := by simpa using no_col
    have some_row : row ≠ [] := by simpa using some
    have := List.length_pos_iff.2 some_row
    rw [List.length_nil] at height
    exact rowPass_delivers lax all (passes.alongRow some_row rfl) (by omega) (by omega) cells log
  next some_col =>
  have some_col : col ≠ [] := by simpa using some_col
  have := List.length_pos_iff.2 some_col
  split
  next no_row =>
    obtain rfl : row = [] := by simpa using no_row
    rw [List.length_nil] at width
    exact colPass_delivers lax all (passes.alongCol rfl some_col) (by omega) (by omega) cells log
  next some_row =>
  have some_row : row ≠ [] := by simpa using some_row
  have := List.length_pos_iff.2 some_row
  obtain ⟨R, blank, first, second⟩ := passes.both some_row some_col
  have fits : ∀ whole : Handle (box.width * grown.height * t.planes),
      whole.Takes { width := box.width, height := grown.height } t.planes → ∀ cells log,
        Yields (Failure.Allowed E) (do convolveRows (← source.strided) hq row whole) (cells, log)
          fun _ s => Overwrites R cells s.1 := by
    rintro whole ⟨whole_cols, whole_rows, _⟩
    dsimp only at whole_cols whole_rows
    exact rowPass_delivers lax all first (by omega) (by omega)
  have served : ∀ whole : Handle (box.width * grown.height * t.planes),
      Unrefused (do convolveRows (← source.strided) hq row whole) fun _ => True := fun whole =>
    .bind (.check fun _ _ => trivial) fun grid _ => convolveRows_unrefused grid hq row whole
  apply Yields.bind
  apply Yields.render
  apply ((Image.render_gives lax blank fits log).known
    (Image.render_unrefused fun whole _ => served whole)).mono
  rintro lines log ⟨all, lines_cols, lines_rows, -⟩
  dsimp only at lines_cols lines_rows
  exact colPass_delivers lax all second (by omega) (by omega) cells log

theorem Delivers.separable (h : t.Delivers E P) (serves : t.Serves) (hblank : P (A.blank p))
    (passes : Passes E P Q hq row col) (border : Border) :
    (t.separable hq row col anchor border).Delivers E Q := by
  intro n handle box cells log
  apply Handle.accept_bind
  intro takes
  apply Yields.bind
  apply Yields.modify
  exact h.passes lax serves hblank passes border takes cells _

end Filters

end Tiler

end ImageViews
