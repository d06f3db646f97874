import ImageViews.Proofs.Convolving
import ImageViews.Tiler.Separable

/-!
# Separable filters of boxes

A pass over the rows of a grid leaves in each cell the sum of the products of a factor with the
pixels from there on, and a pass over the columns is one over the rows of the transposed grid. One
after the other they leave the sums of sums.
-/
namespace ImageViews

variable {E : Fault → Prop}

variable {A : Arithmetic} {p q : A.Pixel} {k : A.Coeff} {h : A.product p k = some q} {n : Nat}
  {log : Log} {box : Box}

theorem sumLine_congr {pixel pixel' : Nat → Check (A.Value p)} {coeff : Nat → Check (A.Factor k)}
    {count i : Nat} {sum : A.Value q}
    (same : ∀ j, i ≤ j → j < i + count → pixel j = pixel' j) :
    sumLine h pixel coeff count i sum = sumLine h pixel' coeff count i sum := by
  induction count generalizing i sum with
  | zero => rfl
  | succ count ih =>
    have rest (sum : A.Value q) : sumLine h pixel coeff count (i + 1) sum =
        sumLine h pixel' coeff count (i + 1) sum :=
      ih fun j hj hj' => same j (by omega) (by omega)
    simp only [sumLine_succ, same i (Nat.le_refl _) (by omega), rest]

theorem factorSum_congr {pixel pixel' : Nat → Check (A.Value p)} {factor : List (A.Factor k)}
    (same : ∀ j, j < factor.length → pixel j = pixel' j) :
    factorSum h factor pixel = factorSum h factor pixel' :=
  sumLine_congr fun j _ hj => same j (by omega)

section TwoPasses

variable {row col : List (A.Factor k)} {shift : Int × Int} {source : Int → Int → Check (A.Value p)}
  {x y : Int}

theorem twoPasses_none (hrow : row.isEmpty = true) (hcol : col.isEmpty = true) :
    twoPasses h row col shift source x y = (do A.scale h (← source x y) (A.one k)) := by
  simp [twoPasses, hrow, hcol]

theorem twoPasses_row (hrow : row.isEmpty = false) (hcol : col.isEmpty = true) :
    twoPasses h row col shift source x y =
      factorSum h row fun i => source (x - shift.1 + i) y := by
  simp [twoPasses, hrow, hcol]

theorem twoPasses_col (hrow : row.isEmpty = true) (hcol : col.isEmpty = false) :
    twoPasses h row col shift source x y =
      factorSum h col fun j => source x (y - shift.2 + j) := by
  simp [twoPasses, hrow, hcol]

theorem twoPasses_both (hrow : row.isEmpty = false) (hcol : col.isEmpty = false) :
    twoPasses h row col shift source x y =
      factorSum (A.product_closed h) col fun j =>
        factorSum h row fun i => source (x - shift.1 + i) (y - shift.2 + j) := by
  simp [twoPasses, hrow, hcol]

end TwoPasses

section Shift

variable {κ : Type} {row col : List κ} {anchor : Anchor (max 1 row.length) (max 1 col.length)}

/-- A window of one column starts at the column of its pixel. -/
theorem Anchor.shift_of_empty_row (hrow : row.isEmpty = true) : anchor.shift.1 = 0 := by
  have := anchor.col_lt
  have none : row.length = 0 := by simpa using hrow
  have before : anchor.before.1 = 0 := by
    simp only [Anchor.before]
    omega
  simp [Anchor.shift, before, Coordinate.ofExtent]

theorem Anchor.shift_of_empty_col (hcol : col.isEmpty = true) : anchor.shift.2 = 0 := by
  have := anchor.row_lt
  have none : col.length = 0 := by simpa using hcol
  have before : anchor.before.2 = 0 := by
    simp only [Anchor.before]
    omega
  simp [Anchor.shift, before, Coordinate.ofExtent]

end Shift

namespace Tiler

theorem convolveRows_yields (tolerant : Tolerant E) {grid : Strided (A.Value p)}
    {factor : List (A.Factor k)} {handle : Handle n} {cells : Vector (A.Value q) n}
    (hg : grid.Sound) (hs : handle.Sound) (hplanes : handle.planes = grid.planes) :
    Yields (Failure.Tolerated E) (convolveRows grid h factor handle) (cells, log) fun _ s =>
      handle.Painted handle.Inside
        (fun x y plane => factorSum h factor fun i => grid.value (x + i : Nat) y plane) cells
          s.1 := by
  refine Yields.bind (Yields.check (Extent.add_yields (.inl (tolerant _)) ?_))
  intro _
  refine Yields.bind (Yields.check (Extent.add_yields (.inl (tolerant _)) ?_))
  intro _
  refine Yields.bind (Yields.check (Check.Yields.require (.inl (tolerant _)) ?_))
  intro width
  refine Yields.bind (Yields.check (Check.Yields.require (.inl (tolerant _)) ?_))
  intro height
  refine (Handle.fill_yields (I := fun _ => True) hs (fun x y plane inside st _ => ?_)
    (fun _ _ _ _ _ _ => .inl (tolerant _)) trivial).mono fun _ s painted => painted.1
  obtain ⟨hx, hy, hp⟩ := inside
  refine (Sampler.correlate1d_yields (I := fun _ => True) (s := Sampler.strided grid)
    (fun j hj _ st _ => ?_) (fun _ _ => .inl (tolerant _)) (fun fault _ => tolerant fault)
    trivial).mono fun _ _ sum => sum
  have shows : (Sampler.strided grid).Shows E (fun _ : Log => True)
      (grid.value (x + j : Nat) y plane) (x + j : Nat) y plane :=
    Strided.shows hg (by unfold Strided.Holds; omega) (by omega)
  have tracks : (Sampler.strided grid : Sampler Log _).Tracks (0 : Int) 0 0 0 :=
    ⟨(0 : Int), rfl, (grid.addressing.moved_zero (0 : Int)).symm⟩
  have there := (tracks.moved x y plane).moved j 0 0
  simp only [Int.zero_add, Int.add_zero] at there
  rw [Int.natCast_add] at shows
  apply (shows.read (fun fault _ => tolerant fault) _ there st trivial).mono
  intro a st' read
  rw [Int.natCast_add]
  exact read

section Pass

variable {image : Image (A.Value p)} {cols rows planes : Nat}
  {shown : Nat → Nat → Nat → Check (A.Value p)} {factor : List (A.Factor k)} {handle : Handle n}
  {cells : Vector (A.Value q) n}

/-- The grid of an image that displays some pixels. -/
theorem grid_yields (tolerant : Tolerant E) (displays : image.Displays cols rows planes shown) :
    image.strided.Yields E fun grid => grid.Sound ∧
      (grid.cols = cols ∧ grid.rows = rows ∧ grid.planes = planes) ∧
        ∀ x y p : Nat, x < cols → y < rows → p < planes → grid.value x y p = shown x y p := by
  refine .of_tolerable (fun fault _ => tolerant fault) ?_
  intro grid hgrid
  have sound := Image.strided_sound displays.addressable hgrid
  have shape := image.strided_yields.value hgrid
  refine ⟨sound, ?_, fun x y p hx hy hp => ?_⟩
  · subst shape
    exact ⟨displays.cols_eq, displays.rows_eq, displays.planes_eq⟩
  · have holds : image.Holds x y := by
      unfold Image.Holds
      rw [displays.cols_eq, displays.rows_eq]
      omega
    rw [Image.strided_value displays.addressable hgrid holds (displays.planes_eq.symm ▸ hp),
      displays.value_eq hx hy hp]

/-- A pass along the rows of an image. -/
theorem rowPass_yields (tolerant : Tolerant E) (displays : image.Displays cols rows planes shown)
    (hs : handle.Sound) (hplanes : handle.planes = planes)
    (hcols : handle.cols + factor.length ≤ cols + 1) (hrows : handle.rows ≤ rows) :
    Yields (Failure.Tolerated E)
      (do convolveRows (← image.strided) h factor handle : Paint Log (A.Value q) n Unit)
      (cells, log) fun _ s => handle.Painted handle.Inside
        (fun x y p => factorSum h factor fun i => shown (x + i) y p) cells s.1 := by
  refine Yields.bind (Yields.check ((grid_yields tolerant displays).mono ?_))
  rintro grid ⟨sound, ⟨_, _, planes_eq⟩, value⟩
  apply (convolveRows_yields tolerant sound hs (hplanes.trans planes_eq.symm)).mono
  refine fun _ s painted => painted.of_pixel fun inside _ => factorSum_congr ?_
  intro i hi
  obtain ⟨hx, hy, hp⟩ := inside
  exact value _ _ _ (by omega) (by omega) (by omega)

/-- A pass along the columns of an image. -/
theorem colPass_yields (tolerant : Tolerant E) (displays : image.Displays cols rows planes shown)
    (hs : handle.Sound) (hplanes : handle.planes = planes)
    (hcols : handle.cols ≤ cols) (hrows : handle.rows + factor.length ≤ rows + 1) :
    Yields (Failure.Tolerated E)
      (do convolveRows (← image.strided).transpose h factor handle.transpose :
        Paint Log (A.Value q) n Unit)
      (cells, log) fun _ s => handle.Painted handle.Inside
        (fun x y p => factorSum h factor fun j => shown x (y + j) p) cells s.1 := by
  refine Yields.bind (Yields.check ((grid_yields tolerant displays).mono ?_))
  rintro grid ⟨sound, ⟨cols_eq, rows_eq, planes_eq⟩, value⟩
  apply (convolveRows_yields tolerant sound.transpose hs.transpose
    (hplanes.trans planes_eq.symm)).mono
  intro _ s painted
  refine painted.of_transpose.of_pixel fun inside _ => factorSum_congr ?_
  intro j hj
  obtain ⟨hx, hy, hp⟩ := inside
  rw [Strided.value_transpose (by omega) (by omega)]
  exact value _ _ _ (by omega) (by omega) (by omega)

/-- A pass along the rows of an image into an image of its own, and one along its columns. -/
theorem rowColPass_yields (tolerant : Tolerant E) (displays : image.Displays cols rows planes shown)
    {row col : List (A.Factor k)} {width : Nat} (hs : handle.Sound)
    (hplanes : handle.planes = planes) (hcols : handle.cols ≤ width)
    (hwidth : width + row.length ≤ cols + 1) (hrows : handle.rows + col.length ≤ rows + 1) :
    Yields (Failure.Tolerated E)
      (do
        let lines ← Image.render (A.storage q) width rows planes fun whole => do
          convolveRows (← image.strided) h row whole
        convolveRows (← lines.strided).transpose (A.product_closed h) col handle.transpose :
        Paint Log (A.Value q) n Unit)
      (cells, log) fun _ s => handle.Painted handle.Inside
        (fun x y p => factorSum (A.product_closed h) col fun j =>
          factorSum h row fun i => shown (x + i) (y + j) p) cells s.1 := by
  refine Yields.bind (Yields.render ((Image.render_yields (.inl tolerant)
    fun addressable whole sound isWhole log => rowPass_yields tolerant displays sound
      isWhole.planes_eq ?_ ?_).mono fun lines log lined => ?_))
  · have := isWhole.cols_eq
    omega
  · exact Nat.le_of_eq isWhole.rows_eq
  · exact colPass_yields tolerant lined hs hplanes hcols hrows

end Pass

/-- The box that is grown by the margins around the anchor is the one that the windows cover. -/
theorem growBox_yields (tolerant : Tolerant E) {cols rows : Nat} {anchor : Anchor cols rows} :
    (growBox anchor box).Yields E (· = box.windows anchor) := by
  have := anchor.col_lt
  have := anchor.row_lt
  unfold growBox Box.grow
  refine Check.Yields.bind (Coordinate.sub_yields (.inl (tolerant _)) ?_)
  intro _
  refine Check.Yields.bind (Coordinate.sub_yields (.inl (tolerant _)) ?_)
  intro _
  refine Check.Yields.bind (Extent.add_yields (.inl (tolerant _)) ?_)
  intro _
  refine Check.Yields.bind (Extent.add_yields (.inl (tolerant _)) ?_)
  intro _
  refine Check.Yields.bind (Extent.add_yields (.inl (tolerant _)) ?_)
  intro _
  refine Check.Yields.bind (Extent.add_yields (.inl (tolerant _)) fun _ => Check.Yields.ok ?_)
  simp only [Box.windows, Anchor.before, Anchor.after, Anchor.shift, Box.mk.injEq, true_and]
  omega

section Passes

variable {t : Tiler (A.Value p)} {row col : List (A.Factor k)} {border : Border}
  {anchor : Anchor (max 1 row.length) (max 1 col.length)} {handle : Handle n}
  {cells : Vector (A.Value q) n} {shown : Int → Int → Nat → Check (A.Value p)}

/-- Without factors every pixel is scaled by one. -/
theorem scalePass_yields (tolerant : Tolerant E) {source : Image (A.Value p)} (hs : handle.Sound)
    (takes : handle.Takes box t.planes) (none : row.isEmpty = true ∧ col.isEmpty = true)
    (displays : source.Displays box.width box.height t.planes fun x y p =>
      shown (box.x + x) (box.y + y) p) :
    Yields (Failure.Tolerated E)
      (handle.fill .coordinates ({} : Position) fun (place : Position) => do
        let pixel ← source.fetch (Extent.ofCoordinate place.x) (Extent.ofCoordinate place.y)
          (Extent.ofCoordinate place.p)
        A.scale h pixel (A.one k) : Paint Log (A.Value q) n Unit)
      (cells, log) fun _ s => handle.Painted handle.Inside
        (fun x y plane => twoPasses h row col anchor.shift (shown · · plane)
          (box.x + x) (box.y + y)) cells s.1 := by
  obtain ⟨cols_eq, rows_eq, planes_eq⟩ := takes
  refine (Handle.fill_yields (I := fun _ => True) hs (fun x y plane inside st _ => ?_)
    (fun _ _ _ _ _ _ => .inl (tolerant _)) trivial).mono fun _ s painted => painted.1
  obtain ⟨hx, hy, hp⟩ := inside
  simp only [Addressing.moved, Int.zero_add, Extent.ofCoordinate_natCast]
  rw [displays.fetch_eq (by omega) (by omega) (by omega)]
  refine Yields.bind (Yields.probe_check (.of_tolerable (fun fault _ => tolerant fault) ?_))
  intro pixel hpixel
  refine Yields.probe_check (.of_tolerable (fun fault _ => tolerant fault) ?_)
  intro a ha
  rw [twoPasses_none none.1 none.2, hpixel, Check.ok_bind, ha]
  exact ⟨trivial, rfl⟩

/-- The factors that are not empty. -/
theorem length_pos {κ : Type} {factor : List κ} (some : factor.isEmpty = false) :
    0 < factor.length := by
  cases factor with
  | nil => cases some
  | cons => simp

variable {source : Image (A.Value p)}

/-- Without a factor for the columns the pass along the rows is all. -/
theorem rowPass_only (tolerant : Tolerant E) (hs : handle.Sound)
    (takes : handle.Takes box t.planes)
    (some_row : row.isEmpty = false) (no_col : col.isEmpty = true)
    (displays : source.Displays (box.windows anchor).width (box.windows anchor).height t.planes
      fun x y p => shown ((box.windows anchor).x + x) ((box.windows anchor).y + y) p) :
    Yields (Failure.Tolerated E)
      (do convolveRows (← source.strided) h row handle : Paint Log (A.Value q) n Unit)
      (cells, log) fun _ s => handle.Painted handle.Inside
        (fun x y plane => twoPasses h row col anchor.shift (shown · · plane)
          (box.x + x) (box.y + y)) cells s.1 := by
  obtain ⟨cols_eq, rows_eq, planes_eq⟩ := takes
  have := length_pos some_row
  have none : col.length = 0 := by simpa using no_col
  have straight : anchor.shift.2 = 0 := Anchor.shift_of_empty_col no_col
  refine (rowPass_yields tolerant displays hs planes_eq ?_ ?_).mono
    fun _ s painted => painted.of_pixel ?_
  · simp only [Box.windows]
    omega
  · simp only [Box.windows]
    omega
  · intro x y plane inside _
    rw [twoPasses_row some_row no_col]
    apply factorSum_congr
    intro i hi
    simp only [Box.windows]
    congr 1 <;> omega

/-- Without a factor for the rows the pass along the columns is all. -/
theorem colPass_only (tolerant : Tolerant E) (hs : handle.Sound)
    (takes : handle.Takes box t.planes)
    (no_row : row.isEmpty = true) (some_col : col.isEmpty = false)
    (displays : source.Displays (box.windows anchor).width (box.windows anchor).height t.planes
      fun x y p => shown ((box.windows anchor).x + x) ((box.windows anchor).y + y) p) :
    Yields (Failure.Tolerated E)
      (do convolveRows (← source.strided).transpose h col handle.transpose :
        Paint Log (A.Value q) n Unit)
      (cells, log) fun _ s => handle.Painted handle.Inside
        (fun x y plane => twoPasses h row col anchor.shift (shown · · plane)
          (box.x + x) (box.y + y)) cells s.1 := by
  obtain ⟨cols_eq, rows_eq, planes_eq⟩ := takes
  have := length_pos some_col
  have none : row.length = 0 := by simpa using no_row
  have straight : anchor.shift.1 = 0 := Anchor.shift_of_empty_row no_row
  refine (colPass_yields tolerant displays hs planes_eq ?_ ?_).mono
    fun _ s painted => painted.of_pixel ?_
  · simp only [Box.windows]
    omega
  · simp only [Box.windows]
    omega
  · intro x y plane inside _
    rw [twoPasses_col no_row some_col]
    apply factorSum_congr
    intro j hj
    simp only [Box.windows]
    congr 1 <;> omega

/-- With both factors the pass along the columns follows the one along the rows. -/
theorem bothPasses (tolerant : Tolerant E) (hs : handle.Sound)
    (takes : handle.Takes box t.planes)
    (some_row : row.isEmpty = false) (some_col : col.isEmpty = false)
    (displays : source.Displays (box.windows anchor).width (box.windows anchor).height t.planes
      fun x y p => shown ((box.windows anchor).x + x) ((box.windows anchor).y + y) p) :
    Yields (Failure.Tolerated E)
      (do
        let lines ← Image.render (A.storage q) box.width (box.windows anchor).height t.planes
          fun whole => do convolveRows (← source.strided) h row whole
        convolveRows (← lines.strided).transpose (A.product_closed h) col handle.transpose :
        Paint Log (A.Value q) n Unit)
      (cells, log) fun _ s => handle.Painted handle.Inside
        (fun x y plane => twoPasses h row col anchor.shift (shown · · plane)
          (box.x + x) (box.y + y)) cells s.1 := by
  obtain ⟨cols_eq, rows_eq, planes_eq⟩ := takes
  have := length_pos some_row
  have := length_pos some_col
  refine (rowColPass_yields tolerant displays hs planes_eq (Nat.le_of_eq cols_eq) ?_ ?_).mono
    fun _ s painted => painted.of_pixel ?_
  · simp only [Box.windows]
    omega
  · simp only [Box.windows]
    omega
  · intro x y plane inside _
    rw [twoPasses_both some_row some_col]
    refine factorSum_congr fun j hj => factorSum_congr ?_
    intro i hi
    simp only [Box.windows]
    congr 1 <;> omega

theorem separablePasses_yields (tolerant : Tolerant E) (hs : handle.Sound)
    (takes : handle.Takes box t.planes)
    (hsource : ∀ box log, Yields (Failure.Tolerated E) (t.extend border (A.storage p) box) log
      fun image _ => image.Displays box.width box.height t.planes
        fun x y p => shown (box.x + x) (box.y + y) p) :
    Yields (Failure.Tolerated E) (t.separablePasses h row col anchor border handle box)
      (cells, log) fun _ s => handle.Painted handle.Inside
        (fun x y plane => twoPasses h row col anchor.shift (shown · · plane)
          (box.x + x) (box.y + y)) cells s.1 := by
  unfold separablePasses
  split
  next none =>
    rw [Bool.and_eq_true] at none
    exact Yields.bind (Yields.render ((hsource _ _).mono fun source log displays =>
      scalePass_yields tolerant hs takes none displays))
  next some =>
  refine Yields.bind (Yields.check ((growBox_yields tolerant).mono ?_))
  rintro _ rfl
  refine Yields.bind (Yields.render ((hsource _ _).mono ?_))
  intro source log displays
  split
  next no_col =>
    have some_row : row.isEmpty = false := by simpa [no_col] using some
    exact rowPass_only tolerant hs takes some_row no_col displays
  next some_col =>
  have some_col : col.isEmpty = false := by simpa using some_col
  split
  next no_row => exact colPass_only tolerant hs takes no_row some_col displays
  next some_row =>
    have some_row : row.isEmpty = false := by simpa using some_row
    exact bothPasses tolerant hs takes some_row some_col displays

theorem separable_paints (tolerant : Tolerant E)
    (hsource : ∀ box log, Yields (Failure.Tolerated E) (t.extend border (A.storage p) box) log
      fun image _ => image.Displays box.width box.height t.planes
        fun x y p => shown (box.x + x) (box.y + y) p) :
    (t.separable h row col anchor border).Paints E
      (fun x y plane => twoPasses h row col anchor.shift (shown · · plane) x y) box := by
  intro n handle hs takes cells log
  refine Yields.bind (Handle.accept_yields takes ?_)
  refine Yields.bind (?_ : Yields _ (Paint.record _) _ _)
  change Yields _ _ (cells, log ++ _) _
  exact separablePasses_yields tolerant hs takes hsource

end Passes

end Tiler

end ImageViews
