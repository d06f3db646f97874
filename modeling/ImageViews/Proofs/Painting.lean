import ImageViews.Proofs.Handles
import ImageViews.Proofs.Windows

/-!
# Painting

Painting a sound handle in reading order leaves the pixel of each position in its cell and every
other cell as it was, whatever cursor moves along: after any number of visits that holds of the
positions visited so far. Painting a window or a transposed handle paints the handle it is cut from.
-/
namespace ImageViews

variable {α σ : Type} {n : Nat} {E : Fault → Prop} {I : σ → Prop}

theorem fetchCell_toArray {cells : Vector α n} {i : Nat} (hi : i < n) :
    fetchCell cells.toArray i = .ok cells[i] :=
  fetchCell_of_lt (by simpa using hi)

namespace Handle

variable {handle : Handle n} {x y p : Nat}

theorem Sound.get_eq (hs : handle.Sound) (inside : handle.Inside x y p) (cells : Vector α n) :
    handle.get cells x y p = fetchCell cells.toArray (handle.address x y p) := by
  unfold Handle.get
  rw [hs.cell_eq inside, fetchCell_toArray (hs.reach inside).2.2]
  rfl

/-- The positions in `S` show their pixels, and the other cells are as they were. -/
structure Painted (handle : Handle n) (S : Nat → Nat → Nat → Prop)
    (pixel : Nat → Nat → Nat → Check α) (cells cells' : Vector α n) : Prop where
  inside : ∀ {x y p : Nat}, handle.Inside x y p → S x y p →
    fetchCell cells'.toArray (handle.address x y p) = pixel x y p
  outside : ∀ i, (∀ x y p, handle.Inside x y p → S x y p → handle.address x y p ≠ i) →
    cells'[i]? = cells[i]?

section Painted

variable {S T : Nat → Nat → Nat → Prop} {pixel : Nat → Nat → Nat → Check α}
  {cells cells' : Vector α n}

theorem Painted.nothing (hS : ∀ x y p, ¬S x y p) : handle.Painted S pixel cells cells where
  inside _ painted := (hS _ _ _ painted).elim
  outside _ _ := rfl

theorem Painted.congr (h : handle.Painted S pixel cells cells')
    (hST : ∀ x y p, handle.Inside x y p → (S x y p ↔ T x y p)) :
    handle.Painted T pixel cells cells' where
  inside inside painted := h.inside inside ((hST _ _ _ inside).2 painted)
  outside i other := h.outside i fun x y p inside painted =>
    other x y p inside ((hST x y p inside).1 painted)

theorem Painted.of_pixel {pixel' : Nat → Nat → Nat → Check α}
    (h : handle.Painted S pixel cells cells')
    (same : ∀ {x y p}, handle.Inside x y p → S x y p → pixel x y p = pixel' x y p) :
    handle.Painted S pixel' cells cells' where
  inside inside painted := (h.inside inside painted).trans (same inside painted)
  outside := h.outside

/-- Painting all pixels over the same cells leaves the same cells. -/
theorem Painted.unique {cells₁ cells₂ : Vector α n}
    (h₁ : handle.Painted handle.Inside pixel cells cells₁)
    (h₂ : handle.Painted handle.Inside pixel cells cells₂) : cells₁ = cells₂ := by
  apply Vector.ext
  intro i hi
  by_cases painted : ∃ x y p, handle.Inside x y p ∧ handle.address x y p = i
  · obtain ⟨x, y, p, inside, rfl⟩ := painted
    have same := (h₁.inside inside inside).trans (h₂.inside inside inside).symm
    rw [fetchCell_toArray hi, fetchCell_toArray hi] at same
    exact Except.ok.inj same
  · have other (x y p : Nat) (inside : handle.Inside x y p) (_ : handle.Inside x y p) :
        handle.address x y p ≠ i := fun same => painted ⟨x, y, p, inside, same⟩
    have same := (h₁.outside i other).trans (h₂.outside i other).symm
    simpa [hi] using same

/-- A position that was not painted shows what it showed before. -/
theorem Painted.kept (hs : handle.Sound) (h : handle.Painted S pixel cells cells')
    (inside : handle.Inside x y p) (other : ¬S x y p) :
    fetchCell cells'.toArray (handle.address x y p) =
      fetchCell cells.toArray (handle.address x y p) := by
  have lt := (hs.reach inside).2.2
  have same := h.outside (handle.address x y p) fun x' y' p' inside' painted equal => by
    obtain ⟨rfl, rfl, rfl⟩ := hs.injective inside' inside equal
    exact other painted
  rw [fetchCell_toArray lt, fetchCell_toArray lt]
  simpa [lt] using same

/-- Positions that were not painted may show the right pixels already. -/
theorem Painted.complete (hs : handle.Sound) {pixel' : Nat → Nat → Nat → Check α}
    (h : handle.Painted S pixel cells cells')
    (same : ∀ {x y p}, handle.Inside x y p → S x y p → pixel x y p = pixel' x y p)
    (rest : ∀ {x y p}, handle.Inside x y p → ¬S x y p →
      fetchCell cells.toArray (handle.address x y p) = pixel' x y p) :
    handle.Painted handle.Inside pixel' cells cells' where
  inside {x y p} inside _ := by
    by_cases painted : S x y p
    · exact (h.inside inside painted).trans (same inside painted)
    · exact (h.kept hs inside painted).trans (rest inside painted)
  outside i other := h.outside i fun x y p inside _ => other x y p inside inside

/-- Painting some positions over others. -/
theorem Painted.overlaid (hs : handle.Sound) {pixel' : Nat → Nat → Nat → Check α}
    {cells'' : Vector α n} (h : handle.Painted S pixel cells cells')
    (h' : handle.Painted T pixel' cells' cells'') [∀ x y p, Decidable (T x y p)] :
    handle.Painted (fun x y p => S x y p ∨ T x y p)
      (fun x y p => if T x y p then pixel' x y p else pixel x y p) cells cells'' where
  inside {x y p} inside painted := by
    by_cases again : T x y p
    · rw [if_pos again]
      exact h'.inside inside again
    · rw [if_neg again, h'.kept hs inside again]
      exact h.inside inside (painted.resolve_right again)
  outside i other := by
    rw [h'.outside i fun x y p inside painted => other x y p inside (.inr painted)]
    exact h.outside i fun x y p inside painted => other x y p inside (.inl painted)

/-- Painting the same pixels once more. -/
theorem Painted.trans (hs : handle.Sound) {cells'' : Vector α n}
    (h : handle.Painted S pixel cells cells') (h' : handle.Painted T pixel cells' cells'') :
    handle.Painted (fun x y p => S x y p ∨ T x y p) pixel cells cells'' := by
  classical
  exact (h.overlaid hs h').of_pixel fun _ _ => ite_self _

theorem Painted.of_window {w : Handle n} {cols rows : Nat} (hs : handle.Sound)
    (window : w.IsWindow handle x y cols rows) (h : w.Painted w.Inside pixel cells cells') :
    handle.Painted (fun x' y' _ => (x ≤ x' ∧ x' < x + cols) ∧ y ≤ y' ∧ y' < y + rows)
      (fun x' y' p => pixel (x' - x) (y' - y) p) cells cells' where
  inside {x' y' p} inside part := by
    obtain ⟨⟨left, right⟩, top, bottom⟩ := part
    have inside' : w.Inside (x' - x) (y' - y) p := by
      refine ⟨?_, ?_, window.planes_eq ▸ inside.2.2⟩
      · rw [window.cols_eq]
        omega
      · rw [window.rows_eq]
        omega
    have address := window.address hs inside'
    rw [Nat.add_sub_cancel' left, Nat.add_sub_cancel' top] at address
    rw [← address]
    exact h.inside inside' inside'
  outside i other := by
    apply h.outside i
    intro x' y' p inside _ equal
    refine other (x + x') (y + y') p (window.inside inside) ?_ ?_
    · have hx := inside.1
      have hy := inside.2.1
      rw [window.cols_eq] at hx
      rw [window.rows_eq] at hy
      omega
    · rw [← window.address hs inside, equal]

/-- Painting a transposed handle. -/
theorem Painted.turned (h : handle.transpose.Painted S pixel cells cells') :
    handle.Painted (fun x y p => S y x p) (fun x y p => pixel y x p) cells cells' where
  inside inside painted := by
    rw [← address_transpose]
    exact h.inside (inside_transpose.2 inside) painted
  outside i other := h.outside i fun y x p inside painted => by
    rw [address_transpose]
    exact other x y p (inside_transpose.1 inside) painted

theorem Painted.of_transpose
    (h : handle.transpose.Painted handle.transpose.Inside pixel cells cells') :
    handle.Painted handle.Inside (fun x y p => pixel y x p) cells cells' :=
  h.turned.congr fun _ _ _ inside => iff_of_true (inside_transpose.2 inside) inside

/-- Painting one more position. -/
theorem Painted.set (hs : handle.Sound) (h : handle.Painted S pixel cells cells')
    (inside : handle.Inside x y p) {a : α} (hpixel : pixel x y p = .ok a) :
    handle.Painted (fun x' y' p' => S x' y' p' ∨ x' = x ∧ y' = y ∧ p' = p) pixel cells
      (cells'.set (handle.address x y p) a (hs.reach inside).2.2) where
  inside {x' y' p'} inside' painted := by
    have lt := (hs.reach inside').2.2
    by_cases same : x' = x ∧ y' = y ∧ p' = p
    · obtain ⟨rfl, rfl, rfl⟩ := same
      rw [hpixel, fetchCell_toArray lt, Vector.getElem_set_self]
    · have distinct : handle.address x y p ≠ handle.address x' y' p' := by
        intro equal
        have := hs.injective inside inside' equal
        omega
      rw [← h.inside inside' (painted.resolve_right same), fetchCell_toArray lt,
        fetchCell_toArray lt, Vector.getElem_set_ne _ _ distinct]
  outside i other := by
    rw [Vector.getElem?_set_ne _ (other x y p inside (.inr ⟨rfl, rfl, rfl⟩))]
    exact h.outside i fun x' y' p' inside' painted => other x' y' p' inside' (.inl painted)

theorem set_yields (hs : handle.Sound) (h : handle.Painted S pixel cells cells')
    (inside : handle.Inside x y p) {a : α} (hpixel : pixel x y p = .ok a) {st : σ}
    {E : Failure → Prop} (hst : I st) :
    Yields E (handle.set x y p a : Paint σ α n Unit) (cells', st) fun _ s =>
      handle.Painted (fun x' y' p' => S x' y' p' ∨ x' = x ∧ y' = y ∧ p' = p) pixel cells s.1 ∧
        I s.2 := by
  have painted := h.set hs inside hpixel
  unfold Handle.set
  rw [hs.cell_eq inside]
  exact ⟨painted, hst⟩

end Painted

section Fill

/-- The positions ahead of a position in reading order. -/
def Before (x y p : Nat) (x' y' p' : Nat) : Prop :=
  y' < y ∨ y' = y ∧ (x' < x ∨ x' = x ∧ p' < p)

variable {pixel : Nat → Nat → Nat → Check α} {cells : Vector α n} {addressing : Addressing}
  {start : addressing.Place} {value : addressing.Place → Probe σ α}

/-- The positions that a walk over an extent passes: those inside it, and the ones behind the last
plane of a pixel, the last column of a row and the last row. -/
def Passes (cols rows planes x y p : Nat) : Prop :=
  y < rows ∧ (x < cols ∧ p ≤ planes ∨ x ≤ cols ∧ p = 0) ∨ y ≤ rows ∧ x = 0 ∧ p = 0

theorem Passes.le {cols rows planes x y p : Nat} (h : Passes cols rows planes x y p) :
    x ≤ cols ∧ y ≤ rows ∧ p ≤ planes := by
  unfold Passes at h
  omega

/-- The state of a walk that is about to visit a position. -/
def Reached (handle : Handle n) (I : σ → Prop) (pixel : Nat → Nat → Nat → Check α)
    (cells : Vector α n) (x y p : Nat) (s : Vector α n × σ) : Prop :=
  handle.Painted (Before x y p) pixel cells s.1 ∧ I s.2

/-- Positions between which there is none of the handle are reached together. -/
theorem Reached.skip {s : Vector α n × σ} {x y p x' y' p' : Nat}
    (h : handle.Reached I pixel cells x y p s)
    (same : ∀ a b c, handle.Inside a b c → (Before x y p a b c ↔ Before x' y' p' a b c)) :
    handle.Reached I pixel cells x' y' p' s := ⟨h.1.congr same, h.2⟩

/-- A step of a cursor while painting. -/
theorem step_yields {check : Check addressing.Place} {place : addressing.Place}
    (h : check.Yields E (· = place)) (s : Vector α n × σ)
    (Q : addressing.Place → Vector α n × σ → Prop) (hQ : Q place s) :
    Yields (Failure.Tolerated E) (liftM check : Paint σ α n addressing.Place) s Q :=
  Yields.check (h.mono fun _ same => same ▸ hQ)

theorem fillPlanes_yields (hs : handle.Sound) (hx : x < handle.cols) (hy : y < handle.rows)
    (hvalue : ∀ p : Nat, handle.Inside x y p → ∀ st, I st →
      Yields E (value (addressing.moved start x y p)) st fun a st' =>
        I st' ∧ pixel x y p = .ok a)
    (hmove : ∀ p : Nat, p ≤ handle.planes →
      E .overflow ∨ addressing.Fits (addressing.moved start x y p))
    {s : Vector α n × σ} (h : handle.Reached I pixel cells x y 0 s) :
    Yields (Failure.Tolerated E)
      (handle.fillPlanes addressing value x y (addressing.moved start x y 0) : Paint σ α n Unit)
      s fun _ => handle.Reached I pixel cells (x + 1) y 0 := by
  unfold fillPlanes
  refine (sweep_yields (i := 0) (fun p : Nat => addressing.moved start x y p)
    (P := fun p _ => handle.Reached I pixel cells x y p) ?_ ?_ h).mono ?_
  · rintro p - hp - ⟨cells', st⟩ ⟨painted, hst⟩
    have inside : handle.Inside x y p := ⟨hx, hy, by omega⟩
    refine Yields.bind (Yields.probe ((hvalue p inside st hst).mono ?_))
    rintro a st' ⟨hst', hpixel⟩
    apply (set_yields hs painted inside hpixel hst').mono
    rintro _ s ⟨painted', hst''⟩
    refine ⟨painted'.congr fun a b c _ => ?_, hst''⟩
    unfold Before
    omega
  · intro p _ hp s Q hQ
    have next := addressing.nextPlane_yields (E := E) (addressing.moved start x y p) (by
      have := hmove (p + 1) (by omega)
      simpa [Addressing.moved_moved] using this)
    apply step_yields next s Q
    simpa [Addressing.moved_moved] using hQ
  · refine fun _ s h => h.skip ?_
    intro a b c inside
    have := inside.2.2
    unfold Before
    omega

theorem fillRow_yields (hs : handle.Sound) (hy : y < handle.rows)
    (hvalue : ∀ x p : Nat, handle.Inside x y p → ∀ st, I st →
      Yields E (value (addressing.moved start x y p)) st fun a st' =>
        I st' ∧ pixel x y p = .ok a)
    (hmove : ∀ x p : Nat, Passes handle.cols handle.rows handle.planes x y p →
      E .overflow ∨ addressing.Fits (addressing.moved start x y p))
    {s : Vector α n × σ} (h : handle.Reached I pixel cells 0 y 0 s) :
    Yields (Failure.Tolerated E)
      (handle.fillRow addressing value y (addressing.moved start 0 y 0) : Paint σ α n Unit)
      s fun _ => handle.Reached I pixel cells 0 (y + 1) 0 := by
  unfold fillRow
  refine (sweep_yields (i := 0) (fun x : Nat => addressing.moved start x y 0)
    (P := fun x _ => handle.Reached I pixel cells x y 0) ?_ ?_ h).mono ?_
  · rintro x - hx - s reached
    refine fillPlanes_yields hs (by omega) hy (hvalue x) (fun p hp => hmove x p ?_) reached
    exact .inl ⟨hy, .inl ⟨by omega, hp⟩⟩
  · intro x _ hx s Q hQ
    have next := addressing.nextCol_yields (E := E) (addressing.moved start x y 0) (by
      have := hmove (x + 1) 0 (.inl ⟨hy, .inr ⟨by omega, rfl⟩⟩)
      simpa [Addressing.moved_moved] using this)
    apply step_yields next s Q
    simpa [Addressing.moved_moved] using hQ
  · refine fun _ s h => h.skip ?_
    intro a b c inside
    have := inside.1
    unfold Before
    omega

/-- Only where the walk passes, the moves have to fit. -/
theorem fill_yields_of_passes (hs : handle.Sound)
    (hvalue : ∀ x y p : Nat, handle.Inside x y p → ∀ st, I st →
      Yields E (value (addressing.moved start x y p)) st fun a st' =>
        I st' ∧ pixel x y p = .ok a)
    (hmove : ∀ x y p : Nat, Passes handle.cols handle.rows handle.planes x y p →
      E .overflow ∨ addressing.Fits (addressing.moved start x y p))
    {st : σ} (hst : I st) :
    Yields (Failure.Tolerated E) (handle.fill addressing start value) (cells, st) fun _ s =>
      handle.Painted handle.Inside pixel cells s.1 ∧ I s.2 := by
  have none : handle.Reached I pixel cells 0 0 0 (cells, st) :=
    ⟨.nothing fun _ _ _ before => by unfold Before at before; omega, hst⟩
  have corner : start = addressing.moved start 0 (0 : Nat) 0 := by simp
  unfold fill
  rw [corner]
  refine (sweep_yields (i := 0) (fun y : Nat => addressing.moved start 0 y 0)
    (P := fun y _ => handle.Reached I pixel cells 0 y 0) ?_ ?_ none).mono ?_
  · rintro y - hy - s reached
    exact fillRow_yields hs (by omega) (hvalue · y) (hmove · y) reached
  · intro y _ hy s Q hQ
    have next := addressing.nextRow_yields (E := E) (addressing.moved start 0 y 0) (by
      have := hmove 0 (y + 1) 0 (.inr ⟨by omega, rfl, rfl⟩)
      simpa [Addressing.moved_moved] using this)
    apply step_yields next s Q
    simpa [Addressing.moved_moved] using hQ
  · rintro _ s ⟨painted, hst⟩
    rw [Nat.zero_add] at painted
    exact ⟨painted.congr fun a b c inside => iff_of_true (.inl inside.2.1) inside, hst⟩

theorem fill_yields (hs : handle.Sound)
    (hvalue : ∀ x y p : Nat, handle.Inside x y p → ∀ st, I st →
      Yields E (value (addressing.moved start x y p)) st fun a st' =>
        I st' ∧ pixel x y p = .ok a)
    (hmove : ∀ x y p : Nat, x ≤ handle.cols → y ≤ handle.rows → p ≤ handle.planes →
      E .overflow ∨ addressing.Fits (addressing.moved start x y p))
    {st : σ} (hst : I st) :
    Yields (Failure.Tolerated E) (handle.fill addressing start value) (cells, st) fun _ s =>
      handle.Painted handle.Inside pixel cells s.1 ∧ I s.2 :=
  fill_yields_of_passes hs hvalue (fun x y p h => hmove x y p h.le.1 h.le.2.1 h.le.2.2) hst

end Fill

/-- The handle has the extent of the box and the planes of the view. -/
def Takes (handle : Handle n) (box : Box) (planes : Nat) : Prop :=
  handle.cols = box.width ∧ handle.rows = box.height ∧ handle.planes = planes

variable {box : Box} {planes : Nat}

theorem accept_eq_ok : handle.accept box planes = .ok () ↔ handle.Takes box planes := by
  unfold accept
  by_cases size : handle.cols ≠ box.width ∨ handle.rows ≠ box.height
  · rw [if_pos size]
    exact iff_of_false (nomatch ·) fun takes => size.elim (· takes.1) (· takes.2.1)
  rw [if_neg size]
  by_cases count : handle.planes ≠ planes
  · rw [if_pos count]
    exact iff_of_false (nomatch ·) fun takes => count takes.2.2
  · rw [if_neg count]
    exact iff_of_true rfl ⟨by omega, by omega, by omega⟩

theorem accept_yields (takes : handle.Takes box planes) {s : Vector α n × σ} {E : Failure → Prop}
    {Q : Unit → Vector α n × σ → Prop} (hQ : Q () s) :
    Yields E (liftM (handle.accept box planes) : Paint σ α n Unit) s Q := by
  rw [accept_eq_ok.2 takes]
  exact hQ

end Handle

namespace Sampler

variable {s : Sampler σ α} {handle : Handle n} {box : Box} {pixel : Int → Int → Nat → Check α}
  {cells : Vector α n} {st : σ}

/-- Painting a box pixel by pixel, with cursors that can be placed where the walk passes. -/
theorem paint_yields_of_passes (hs : handle.Sound) (takes : handle.Takes box s.planes)
    (hshows : ∀ x y p : Nat, handle.Inside x y p →
      s.Shows E I (pixel (box.x + x) (box.y + y) p) (box.x + x) (box.y + y) p)
    (htolerable : ∀ x y p : Nat, handle.Inside x y p →
      (pixel (box.x + x) (box.y + y) p).Tolerable E)
    (hadmits : ∀ x y p : Nat, Handle.Passes box.width box.height s.planes x y p →
      s.Admits E (box.x + x) (box.y + y) p)
    (hst : I st) :
    Yields (Failure.Tolerated E) (s.paint handle box) (cells, st) fun _ s' =>
      handle.Painted handle.Inside (fun x y p => pixel (box.x + x) (box.y + y) p) cells s'.1 ∧
        I s'.2 := by
  unfold paint
  refine Yields.bind (Handle.accept_yields takes ?_)
  have corner := place_yields (hadmits 0 0 0 (.inr ⟨Nat.zero_le _, rfl, rfl⟩))
  simp only [Int.ofNat_zero, Int.add_zero] at corner
  refine Yields.bind (Yields.check (corner.mono ?_))
  intro place tracks
  refine Handle.fill_yields_of_passes hs (fun x y p inside st hst => ?_) (fun x y p h => ?_) hst
  · have there := tracks.moved x y p
    rw [Int.zero_add] at there
    exact (hshows x y p inside).read (htolerable x y p inside) _ there st hst
  · have there := tracks.moved x y p
    rw [Int.zero_add] at there
    rw [takes.1, takes.2.1, takes.2.2] at h
    exact there.fits (hadmits x y p h)

/-- Painting a box pixel by pixel. -/
theorem paint_yields (hs : handle.Sound) (takes : handle.Takes box s.planes)
    (hshows : ∀ x y p : Nat, handle.Inside x y p →
      s.Shows E I (pixel (box.x + x) (box.y + y) p) (box.x + x) (box.y + y) p)
    (htolerable : ∀ x y p : Nat, handle.Inside x y p →
      (pixel (box.x + x) (box.y + y) p).Tolerable E)
    (hadmits : ∀ x y p : Nat, x ≤ box.width → y ≤ box.height → p ≤ s.planes →
      s.Admits E (box.x + x) (box.y + y) p)
    (hst : I st) :
    Yields (Failure.Tolerated E) (s.paint handle box) (cells, st) fun _ s' =>
      handle.Painted handle.Inside (fun x y p => pixel (box.x + x) (box.y + y) p) cells s'.1 ∧
        I s'.2 :=
  paint_yields_of_passes hs takes hshows htolerable
    (fun x y p h => hadmits x y p h.le.1 h.le.2.1 h.le.2.2) hst

end Sampler

end ImageViews
