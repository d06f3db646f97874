import ImageViews.Pixel.Standard
import ImageViews.Proofs.Rendering
import ImageViews.Proofs.Tiles
import ImageViews.View.Session

/-!
# Walks of cursors

A walk that does not overflow arrives at a place that depends on its total displacement alone, and
reads the pixel there. Its crops have moved the origin once and for all, so the position in the view
that they are cut from is formed in one sum; point access forms it crop by crop, and each of these
positions has to fit its word.
-/
namespace ImageViews

/-- How far a move goes. -/
def Move.shift : Move → Position
  | .nextCol => { x := 1 }
  | .nextRow => { y := 1 }
  | .nextPlane => { p := 1 }
  | .advance x y p => { x, y, p }

/-- How far some moves go in all. -/
def Move.net : List Move → Position
  | [] => {}
  | move :: moves => {
    x := move.shift.x + (net moves).x
    y := move.shift.y + (net moves).y
    p := move.shift.p + (net moves).p }

namespace Addressing

variable {a : Addressing} {place : a.Place}

theorem move_fits (fits : a.Fits place) (move : Move) :
    (a.move place move).Yields (· = .overflow) a.Fits := by
  cases a with
  | strides col row plane =>
    cases move with
    | nextCol | nextRow | nextPlane => exact Coordinate.add_yields (.inl rfl) id
    | advance dx dy dp => exact (advance_yields place dx dy dp).mono fun _ reached => reached.2
  | coordinates =>
    obtain ⟨x, y, p⟩ := fits
    cases move with
    | nextCol =>
      exact .bind (Coordinate.add_yields (.inl rfl) fun x => Check.Yields.ok ⟨x, y, p⟩)
    | nextRow =>
      exact .bind (Coordinate.add_yields (.inl rfl) fun y => Check.Yields.ok ⟨x, y, p⟩)
    | nextPlane =>
      exact .bind (Coordinate.add_yields (.inl rfl) fun p => Check.Yields.ok ⟨x, y, p⟩)
    | advance dx dy dp => exact (advance_yields place dx dy dp).mono fun _ reached => reached.2

/-- A move that overflows nowhere reaches the displaced place, which fits as well. -/
theorem move_yields (fits : a.Fits place) (move : Move) :
    (a.move place move).Yields (· = .overflow) fun q =>
      q = a.moved place move.shift.x move.shift.y move.shift.p ∧ a.Fits q := by
  have reaches : (a.move place move).Yields (· = .overflow)
      (· = a.moved place move.shift.x move.shift.y move.shift.p) := by
    cases move with
    | nextCol => exact nextCol_yields place (.inl rfl)
    | nextRow => exact nextRow_yields place (.inl rfl)
    | nextPlane => exact nextPlane_yields place (.inl rfl)
    | advance dx dy dp => exact (advance_yields place dx dy dp).mono fun _ reached => reached.1
  exact .of_tolerable reaches.tolerable fun q hq =>
    ⟨reaches.value hq, (move_fits fits move).value hq⟩

/-- Some moves that overflow nowhere reach the place that their sum leads to. -/
theorem moves_yield (fits : a.Fits place) (moves : List Move) :
    (moves.foldlM a.move place : Check a.Place).Yields (· = .overflow) fun q =>
      q = a.moved place (Move.net moves).x (Move.net moves).y (Move.net moves).p ∧ a.Fits q := by
  induction moves generalizing place with
  | nil => exact Check.Yields.ok ⟨(a.moved_zero place).symm, fits⟩
  | cons move moves ih =>
    rw [List.foldlM_cons]
    refine Check.Yields.bind ((move_yields fits move).mono ?_)
    rintro _ ⟨rfl, fits⟩
    apply (ih fits).mono
    rintro _ ⟨rfl, fits⟩
    refine ⟨?_, fits⟩
    rw [moved_moved]
    rfl

end Addressing

namespace Sampler

variable {σ α : Type} {x y : Int} {plane : Nat}

theorem image_read_eq_get {image : Image α} (ha : image.Addressable) (holds : image.Holds x y)
    (hp : plane < image.planes) {place : Int}
    (tracks : (Sampler.image image : Sampler σ α).Tracks place x y plane) :
    (Sampler.image image : Sampler σ α).read place = (Sampler.image image).get x y plane := by
  obtain ⟨⟨hx, hx'⟩, hy, hy'⟩ := holds
  obtain ⟨x, rfl⟩ := Int.eq_ofNat_of_zero_le hx
  obtain ⟨y, rfl⟩ := Int.eq_ofNat_of_zero_le hy
  obtain ⟨origin, horigin, rfl⟩ := tracks
  obtain rfl : origin = (0 : Int) := image_origin horigin
  have address : (Sampler.image image : Sampler σ α).addressing.moved (0 : Int) x y plane =
      (image.index x y plane : Int) := by
    rw [← Image.index_eq_strides ha (by omega) (by omega) hp]
    simp [Addressing.moved, Sampler.image]
  have point : image.fetch x y plane = fetchCell image.cells (image.index x y plane) := by
    rw [Image.fetch_eq_value ha (by omega) (by omega) hp,
      Image.value_of_inside (by omega) (by omega) hp]
  rw [address]
  simp only [Sampler.image, Extent.ofCoordinate_natCast, point]

theorem strided_read_eq_get {grid : Strided α} (sound : grid.Sound) (holds : grid.Holds x y)
    (hp : plane < grid.planes) {place : Int}
    (tracks : (Sampler.strided grid : Sampler σ α).Tracks place x y plane) :
    (Sampler.strided grid : Sampler σ α).read place = (Sampler.strided grid).get x y plane := by
  obtain ⟨⟨hx, hx'⟩, hy, hy'⟩ := holds
  obtain ⟨x, rfl⟩ := Int.eq_ofNat_of_zero_le hx
  obtain ⟨y, rfl⟩ := Int.eq_ofNat_of_zero_le hy
  obtain ⟨origin, horigin, rfl⟩ := tracks
  obtain rfl : (0 : Int) = origin := Except.ok.inj horigin
  have address : (Sampler.strided grid : Sampler σ α).addressing.moved (0 : Int) x y plane =
      (x * grid.colStride + y * grid.rowStride + plane : Int) := by
    simp [Addressing.moved, Sampler.strided, Strided.addressing]
  rw [address]
  simp only [Sampler.strided]
  rw [Strided.read_eq_value sound (by omega) (by omega) hp,
    Strided.get_eq_value sound (by omega) (by omega) hp]

/-- Pixels that are computed from their coordinates are evaluated where the cursor is. -/
theorem computed_read_eq_get {cols rows planes : Nat} {get : Int → Int → Nat → Probe σ α}
    {place : Position} (tracks : (computed cols rows planes get).Tracks place x y plane) :
    (computed cols rows planes get).read place = get x y plane := by
  obtain ⟨origin, horigin, rfl⟩ := tracks
  obtain rfl : ({} : Position) = origin := Except.ok.inj horigin
  simp [computed, Addressing.moved]

theorem computed_fits {cols rows planes : Nat} {get : Int → Int → Nat → Probe σ α}
    {place : Position} (tracks : (computed cols rows planes get).Tracks place x y plane)
    (fits : (computed cols rows planes get).addressing.Fits place) :
    Coordinate.Fits x ∧ Coordinate.Fits y := by
  obtain ⟨origin, horigin, rfl⟩ := tracks
  obtain rfl : ({} : Position) = origin := Except.ok.inj horigin
  obtain ⟨column, row, -⟩ := fits
  exact ⟨by simpa [computed, Addressing.moved] using column,
    by simpa [computed, Addressing.moved] using row⟩

end Sampler

namespace View

variable {A : Arithmetic} {p : A.Pixel} {v : View A p} {x y : Int} {plane : Nat}

/-- The place at which a cursor arrives that starts at the first pixel. -/
def walk (v : View A p) (moves : List Move) : Check v.sampler.addressing.Place := do
  let start ← v.sampler.origin
  moves.foldlM v.sampler.addressing.move start

theorem cursor_of_walk {moves : List Move} {place : v.sampler.addressing.Place}
    (walked : v.walk moves = .ok place) : v.cursor moves = v.sampler.read place := by
  have arrives : v.cursor moves =
      (liftM (v.walk moves) : Probe (Trail v.Memo) _) >>= v.sampler.read := by
    unfold cursor Sampler.cursor walk
    cases v.sampler.origin with
    | error fault => rfl
    | ok start => rfl
  rw [arrives, walked]
  rfl

/-- The first pixel of every view has a place, unless that overflows. -/
theorem origin_yields (v : View A p) :
    v.sampler.origin.Yields (· = .overflow) v.sampler.addressing.Fits := by
  have zero : Coordinate.Fits 0 := by decide
  induction v with
  | image pixels =>
    exact Check.Yields.bind (pixels.strided_yields.mono fun _ _ => Check.Yields.ok zero)
  | strided grid => exact Check.Yields.ok zero
  | crop child x0 y0 cols rows ih =>
    exact Check.Yields.bind (ih.mono fun origin _ =>
      (child.sampler.addressing.advance_yields origin x0 y0 0).mono fun _ reached => reached.2)
  | extend | convolve | separable => exact Check.Yields.ok ⟨zero, zero, zero⟩

theorem walk_yields (v : View A p) (moves : List Move) :
    (v.walk moves).Yields (· = .overflow) fun place =>
      v.sampler.Tracks place (Move.net moves).x (Move.net moves).y (Move.net moves).p ∧
        v.sampler.addressing.Fits place := by
  unfold walk
  cases ho : v.sampler.origin with
  | error fault => exact v.origin_yields.tolerable fault ho
  | ok origin =>
    have fits := v.origin_yields.value ho
    exact (Addressing.moves_yield fits moves).mono fun place h => ⟨⟨origin, ho, h.1⟩, h.2⟩

/-- The stored cells that the crops of the view lead to can be addressed. -/
def Anchored : {p : A.Pixel} → View A p → Prop
  | _, image pixels _ => pixels.Addressable
  | _, strided grid => grid.Sound
  | _, crop child .. => child.Anchored
  | _, extend .. | _, convolve .. | _, separable .. => True

/-- The crops of the view lead from `(x, y)` to a pixel that is stored, or to a view that computes
its pixels. -/
def Provides : {p : A.Pixel} → View A p → Int → Int → Prop
  | _, image pixels _, x, y => pixels.Holds x y
  | _, strided grid, x, y => grid.Holds x y
  | _, crop child x0 y0 _ _, x, y => child.Provides (x + x0) (y + y0)
  | _, extend .., _, _ | _, convolve .., _, _ | _, separable .., _, _ => True

/-- The positions to which the crops of the view lead from `(x, y)`, one after the other, fit. -/
def Representable : {p : A.Pixel} → View A p → Int → Int → Prop
  | _, crop child x0 y0 _ _, x, y =>
    (Coordinate.Fits (x + x0) ∧ Coordinate.Fits (y + y0)) ∧ child.Representable (x + x0) (y + y0)
  | _, image .., _, _ | _, strided _, _, _ | _, extend .., _, _ | _, convolve .., _, _
  | _, separable .., _, _ => True

/-- The view is cut from a view that is itself cut from another one. -/
def Layered : {p : A.Pixel} → View A p → Prop
  | _, crop (.crop ..) .. => True
  | _, _ => False

/-- The pixel at the position to which the crops of the view lead from `(x, y)`, with their offsets
summed as integers. -/
def pixelBelow : {p : A.Pixel} → (v : View A p) → Int → Int → Nat →
    Probe (Trail v.Memo) (A.Value p)
  | _, crop child x0 y0 _ _, x, y, plane => child.pixelBelow (x + x0) (y + y0) plane
  | _, image pixels provenance, x, y, plane => (image pixels provenance).get x y plane
  | _, strided grid, x, y, plane => (strided grid).get x y plane
  | _, extend child border, x, y, plane => (extend child border).get x y plane
  | _, convolve child h kernel anchor border, x, y, plane =>
    (convolve child h kernel anchor border).get x y plane
  | _, separable child h row col anchor border, x, y, plane =>
    (separable child h row col anchor border).get x y plane

/-- A cursor over stored pixels reads the cell of the pixel, and one over computed pixels evaluates
it; crops leave the reading to what they are cut from. -/
theorem read_eq_pixelBelow (anchored : v.Anchored) (provides : v.Provides x y)
    (hplane : plane < v.planes) {place : v.sampler.addressing.Place}
    (tracks : v.sampler.Tracks place x y plane) :
    v.sampler.read place = v.pixelBelow x y plane := by
  induction v generalizing x y with
  | image pixels provenance => exact Sampler.image_read_eq_get anchored provides hplane tracks
  | strided grid => exact Sampler.strided_read_eq_get anchored provides hplane tracks
  | crop child x0 y0 cols rows ih => exact ih anchored provides hplane tracks.of_crop
  | extend | convolve | separable => exact Sampler.computed_read_eq_get tracks

section Crops

variable {child : View A p} {x0 y0 : Int} {cols rows : Nat}

theorem get_crop (child : View A p) :
    (child.crop x0 y0 cols rows).get x y plane = (do
      let x ← Coordinate.add x x0
      let y ← Coordinate.add y y0
      child.get x y plane) := rfl

theorem get_crop_of_fits (column : Coordinate.Fits (x + x0)) (row : Coordinate.Fits (y + y0)) :
    (child.crop x0 y0 cols rows).get x y plane = child.get (x + x0) (y + y0) plane := by
  rw [get_crop, Coordinate.add, Coordinate.checked_of_fits column, Coordinate.add,
    Coordinate.checked_of_fits row]
  rfl

theorem get_crop_of_not_fits (child : View A p)
    (far : ¬(Coordinate.Fits (x + x0) ∧ Coordinate.Fits (y + y0)))
    (trail : Trail child.Memo) :
    ((child.crop x0 y0 cols rows).get x y plane).run.run trail = (.error .overflow, trail) := by
  rw [get_crop, Coordinate.add]
  by_cases column : Coordinate.Fits (x + x0)
  · have row : Coordinate.add y y0 = .error .overflow := if_neg fun row => far ⟨column, row⟩
    rw [Coordinate.checked_of_fits column, row]
    rfl
  · have overflows : Coordinate.checked (x + x0) = .error .overflow := if_neg column
    rw [overflows]
    rfl

end Crops

theorem get_of_representable (representable : v.Representable x y) :
    v.get x y plane = v.pixelBelow x y plane := by
  induction v generalizing x y with
  | crop child x0 y0 cols rows ih =>
    obtain ⟨⟨column, row⟩, rest⟩ := representable
    rw [pixelBelow, ← ih rest]
    exact get_crop_of_fits column row
  | image | strided | extend | convolve | separable => rfl

theorem get_of_not_representable (far : ¬v.Representable x y) (trail : Trail v.Memo) :
    (v.get x y plane).run.run trail = (.error .overflow, trail) := by
  induction v generalizing x y with
  | crop child x0 y0 cols rows ih =>
    by_cases fits : Coordinate.Fits (x + x0) ∧ Coordinate.Fits (y + y0)
    · rw [get_crop_of_fits fits.1 fits.2]
      exact ih (fun rest => far ⟨fits, rest⟩) trail
    · exact get_crop_of_not_fits child fits trail
  | image | strided | extend | convolve | separable => exact (far trivial).elim

theorem fits_of_stored {cols rows planes : Nat} (hx : 0 ≤ x ∧ x < cols) (hy : 0 ≤ y ∧ y < rows)
    (hplanes : 0 < planes)
    (size : ((cols * rows * planes : Nat) : Int) ≤ Coordinate.greatest) :
    Coordinate.Fits x ∧ Coordinate.Fits y := by
  have extents := Image.extents_fit (by omega) (by omega) hplanes size
  unfold Coordinate.Fits Coordinate.least
  omega

/-- A view that is cut at most once forms only the position that the cursor has arrived at, or that
of a stored pixel. -/
theorem representable_of_not_layered (flat : ¬v.Layered) (anchored : v.Anchored)
    (provides : v.Provides x y) (hplane : plane < v.planes) {place : v.sampler.addressing.Place}
    (tracks : v.sampler.Tracks place x y plane) (fits : v.sampler.addressing.Fits place) :
    v.Representable x y := by
  cases v with
  | image | strided | extend | convolve | separable => trivial
  | crop child x0 y0 cols rows =>
    have inner := tracks.of_crop
    cases child with
    | crop => exact (flat trivial).elim
    | image pixels =>
      have size : (pixels.cells.size : Int) ≤ Coordinate.greatest := anchored
      rw [pixels.size_cells] at size
      exact ⟨fits_of_stored provides.1 provides.2 (Nat.zero_lt_of_lt hplane) size, trivial⟩
    | strided grid =>
      have size := Int.le_trans (Int.ofNat_le.2 anchored.count_le) anchored.size_le
      exact ⟨fits_of_stored provides.1 provides.2 (Nat.zero_lt_of_lt hplane) size, trivial⟩
    | extend | convolve | separable => exact ⟨Sampler.computed_fits inner fits, trivial⟩

end View

section Rendered

variable {α : Type} {storage : Storage α} {log : Log}

/-- Whatever the first evaluation gives, and however it fails. -/
theorem Yields.bind_anyhow {σ ε β : Type} {m : ExceptT ε (StateM σ) α}
    {f : α → ExceptT ε (StateM σ) β} {s : σ} {Q : β → σ → Prop}
    (h : ∀ a s', Yields (fun _ => True) (f a) s' Q) : Yields (fun _ => True) (m >>= f) s Q := by
  refine Yields.bind ?_
  unfold Yields
  split
  · exact h _ _
  · trivial

/-- A check after which every failure is as good as another. -/
theorem Yields.check_anyhow {σ : Type} {c : Check α} {s : σ} {Q : α → σ → Prop}
    (h : c.Yields Lenient (Q · s)) :
    Yields (fun _ => True) (liftM c : ExceptT Failure (StateM σ) α) s Q :=
  (Yields.check h).weaken fun _ _ => trivial

/-- The cells of a new image are allocated before they are painted. -/
theorem Image.render_addressable {cols rows planes : Nat}
    (paint : Handle (cols * rows * planes) → Paint Log α (cols * rows * planes) Unit) :
    Yields (fun _ => True) (Image.render storage cols rows planes paint) log fun image _ =>
      image.Addressable := by
  refine Yields.bind (Yields.check_anyhow
    ((allocate_yields storage.bytes_pos (.inl Lenient.tolerant)).mono ?_))
  intro _ size
  refine Yields.bind_anyhow fun _ _ => ?_
  refine Yields.bind_anyhow fun cells _ => Yields.pure ?_
  unfold Addressable
  rwa [Image.size_cells]

theorem Image.blank_addressable (cols rows planes : Nat) :
    Yields (fun _ => True) (liftM (Image.blank storage cols rows planes) : Render (Image α)) log
      fun image _ => image.Addressable :=
  Yields.check_anyhow ((Image.blank_yields (.inl Lenient.tolerant)).mono
    fun _ displays => displays.addressable)

/-- However an extension is put together, its cells can be addressed. -/
theorem Tiler.extend_addressable (t : Tiler α) (border : Border) (box : Box) :
    Yields (fun _ => True) (t.extend border storage box) log fun image _ =>
      image.Addressable := by
  unfold extend
  split
  · exact Image.blank_addressable _ _ _
  refine Yields.bind_anyhow fun inside _ => ?_
  split
  · exact Image.render_addressable _
  split
  · refine Yields.bind_anyhow fun common _ => ?_
    cases common with
    | none => exact Image.blank_addressable _ _ _
    | some inner => exact Image.render_addressable _
  · refine Yields.bind_anyhow fun xs _ => ?_
    refine Yields.bind_anyhow fun ys _ => ?_
    refine Yields.bind_anyhow fun source _ => ?_
    refine Yields.bind_anyhow fun pixels _ => ?_
    exact Yields.check_anyhow ((Image.generate_yields storage.bytes_pos (.inl Lenient.tolerant)
      fun _ _ _ _ _ _ _ _ => trivial).mono fun _ displays => displays.addressable)

end Rendered

namespace View

variable {A : Arithmetic} {p : A.Pixel} {v : View A p} {x y : Int} {plane : Nat}

theorem ofPatch_anchored {image : Image (A.Value p)} (addressable : image.Addressable) (box : Box)
    (cols rows : Nat) (log : Log) :
    Yields (fun _ => True)
      (liftM (Tiler.Patch.ofBox image box) >>= fun patch =>
        pure (ofPatch patch cols rows) : Render (View A p))
      log fun v' _ => v'.Anchored := by
  refine Yields.bind (Yields.check_anyhow ?_)
  refine Check.Yields.bind (Coordinate.neg_yields (.inl trivial) fun _ => ?_)
  exact Check.Yields.bind
    (Coordinate.neg_yields (.inl trivial) fun _ => Check.Yields.ok (Yields.pure addressable))

/-- Prerasterizing leaves cells that can be addressed. -/
theorem prerasterize_anchored (anchored : v.Anchored) (box : Box) (log : Log) :
    Yields (fun _ => True) (v.prerasterize box) log fun v' _ => v'.Anchored := by
  induction v generalizing box log with
  | image pixels =>
    exact Yields.bind (Yields.check_anyhow (.of_tolerable (fun _ _ => trivial) fun grid made =>
      Yields.pure (Image.strided_sound anchored made)))
  | strided grid => exact Yields.pure anchored
  | crop child x0 y0 cols rows ih =>
    refine Yields.bind_anyhow fun moved log => ?_
    exact Yields.bind ((ih anchored moved log).mono fun child' _ h => Yields.pure h)
  | extend child border =>
    exact Yields.bind ((Tiler.extend_addressable _ border box).mono fun image log h =>
      ofPatch_anchored h box _ _ log)
  | convolve child =>
    exact Yields.bind_anyhow fun patch _ => Yields.pure trivial
  | separable child =>
    exact Yields.bind ((Image.render_addressable _).mono fun image log h =>
      ofPatch_anchored h box _ _ log)

/-- A cursor arrives, whichever way it walks, at the place of its total displacement, and reads the
pixel below all crops that point access reads as well. Point access faults instead if one of the
positions that it forms on the way there does not fit, which takes a crop of a crop. Views that were
prerasterized are covered. -/
theorem walks_meet_points (anchored : v.Anchored) :
    (∀ moves moves' place place', Move.net moves = Move.net moves' → v.walk moves = .ok place →
      v.walk moves' = .ok place' → place = place') ∧
    (∀ moves place (x y : Int) (plane : Nat), v.walk moves = .ok place →
      Move.net moves = { x, y, p := plane } → plane < v.planes → v.Provides x y →
      v.cursor moves = v.pixelBelow x y plane ∧
      (v.Representable x y → v.cursor moves = v.get x y plane) ∧
      (¬v.Representable x y → ∀ trail,
        (v.get x y plane).run.run trail = (.error .overflow, trail)) ∧
      (¬v.Layered → v.Representable x y)) ∧
    ∀ box log v' log', (v.prerasterize box).run.run log = (.ok v', log') → v'.Anchored := by
  have arrives {moves : List Move} {place : v.sampler.addressing.Place}
      (walked : v.walk moves = .ok place) :
      v.sampler.Tracks place (Move.net moves).x (Move.net moves).y (Move.net moves).p ∧
        v.sampler.addressing.Fits place := (v.walk_yields moves).value walked
  refine ⟨?_, ?_, ?_⟩
  · intro moves moves' place place' same walked walked'
    obtain ⟨origin, ho, rfl⟩ := (arrives walked).1
    obtain ⟨origin', ho', rfl⟩ := (arrives walked').1
    obtain rfl : origin = origin' := Except.ok.inj (ho.symm.trans ho')
    rw [same]
  · intro moves place x y plane walked net hplane provides
    obtain ⟨tracks, fits⟩ := arrives walked
    rw [net] at tracks
    have below : v.cursor moves = v.pixelBelow x y plane := by
      rw [cursor_of_walk walked]
      exact read_eq_pixelBelow anchored provides hplane tracks
    refine ⟨below, fun representable => ?_, get_of_not_representable, fun flat => ?_⟩
    · rw [below, get_of_representable representable]
    · exact representable_of_not_layered flat anchored provides hplane tracks fits
  · intro box log v' log' evaluated
    exact (prerasterize_anchored anchored box log).value evaluated

section Examples

/-- Three columns and two rows, transposed. -/
def sheet : Strided UInt8 where
  cells := #[1, 2, 3, 4, 5, 6]
  cols := 2
  rows := 3
  planes := 1
  colStride := 3
  rowStride := 1

/-- The second column of the sheet, seen from the row above it. -/
def sheetColumn : View .standard PixelKind.u8 :=
  crop (A := .standard) (p := PixelKind.u8) (.strided sheet) 1 (-1) 1 3

theorem sheet_sound : sheet.Sound where
  size_le := by decide
  count_le := by decide
  address_lt {x y plane} hx hy hp := by
    simp only [sheet] at hx hy hp
    simp only [sheet, List.size_toArray, List.length_cons, List.length_nil]
    omega

/-- The walk leaves the sheet and comes back to it. -/
theorem sheetColumn_walk_meets_point :
    let moves := [.advance (-70) 5 0, .nextRow, .advance 70 (-4) 0]
    sheetColumn.Anchored ∧ sheetColumn.cursor moves = sheetColumn.get 0 2 0 ∧
      ((sheetColumn.cursor moves).run.run { memo := () }).1 = .ok (5 : UInt8) := by
  have ⟨_, meets, _⟩ := walks_meet_points (v := sheetColumn) sheet_sound
  obtain ⟨-, same, -, flat⟩ := meets [.advance (-70) 5 0, .nextRow, .advance 70 (-4) 0] (4 : Int)
    0 2 0 rfl rfl (by decide) ⟨⟨by decide, by decide⟩, by decide, by decide⟩
  exact ⟨sheet_sound, same (flat id), rfl⟩

/-- Two pixels with all pixels to their left and right, cut so that the offsets of the cuts cancel
each other. -/
def cancelling : View .standard PixelKind.u8 :=
  crop (A := .standard) (p := PixelKind.u8)
    (crop (A := .standard) (p := PixelKind.u8)
      (extend (A := .standard) (p := PixelKind.u8)
        (image (A := .standard) (p := PixelKind.u8)
          { cols := 2, rows := 1, planes := 1, cells := (#[10, 20] : Array UInt8)
            size_cells := rfl } .given) .replicate)
      (-Coordinate.greatest) 0 0xffffffffffffffff 1)
    Coordinate.greatest 0 2 1

/-- The cursor reads a pixel where point access faults, on the way to the view in between. -/
theorem cancelling_walk_misses_point :
    (cancelling.Anchored ∧ ∀ x y, cancelling.Provides x y) ∧
      Move.net [.nextCol] = { x := 1, y := 0, p := 0 } ∧
      ((cancelling.cursor [.nextCol]).run.run { memo := () }).1 = .ok (20 : UInt8) ∧
      ((cancelling.get 1 0 0).run.run { memo := () }).1 = .error .overflow :=
  ⟨⟨trivial, fun _ _ => trivial⟩, rfl, rfl, rfl⟩

end Examples

end View

end ImageViews
