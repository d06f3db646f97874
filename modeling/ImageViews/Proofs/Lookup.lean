import ImageViews.Proofs.Budget

/-!
# Point access of views

The kernels that point access keeps are the outer products of their factors, whenever they were
built. As long as that holds, coordinates and cursors alike give the value of every pixel that the
view holds, and leave it true.
-/
namespace ImageViews

variable {E : Fault → Prop}

/-- The kernel in the slot, if there is one, is the outer product of the factors. -/
def KeepsOuter {A : Arithmetic} {k : A.Coeff} (row col : List (A.Factor k))
    (slot : Option (Kernel (A.Factor k))) : Prop :=
  ∀ kernel, slot = some kernel → Kernel.outer (A.one k) A.times row col = .ok kernel

namespace View

variable {A : Arithmetic} {p : A.Pixel}

/-- Every kernel that is kept is the outer product of the factors of its filter. -/
def Memo.Valid : {p : A.Pixel} → (v : View A p) → v.Memo → Prop
  | _, image .. | _, strided _ => fun _ => True
  | _, crop child .. | _, extend child _ | _, convolve child .. => Memo.Valid child
  | _, separable (k := k) child _ row col _ _ =>
    fun (memo : Option (Kernel (A.Factor k)) × child.Memo) =>
      KeepsOuter row col memo.1 ∧ Memo.Valid child memo.2

/-- The kernels of a trail are the ones that the view needs. -/
def Keeps (v : View A p) (trail : Trail v.Memo) : Prop := Memo.Valid v trail.memo

theorem Memo.empty_valid (v : View A p) : Memo.Valid v (Memo.empty v) := by
  induction v with
  | image | strided => trivial
  | crop child _ _ _ _ ih => exact ih
  | extend child _ ih => exact ih
  | convolve child _ _ _ _ ih => exact ih
  | separable child _ _ _ _ _ ih => exact And.intro (fun _ h => nomatch h) ih

theorem keeps_empty (v : View A p) : v.Keeps { memo := Memo.empty v } := Memo.empty_valid v

end View

theorem Kernel.outer_extent {κ : Type} {one : κ} {times : κ → κ → Check κ} {row col : List κ}
    {kernel : Kernel κ} (h : Kernel.outer one times row col = .ok kernel) :
    kernel.cols = max 1 row.length ∧ kernel.rows = max 1 col.length := by
  have extent : (Kernel.outer one times row col).Yields (fun _ => True) fun kernel =>
      kernel.cols = max 1 row.length ∧ kernel.rows = max 1 col.length :=
    Check.Yields.bind (.of_tolerable (fun _ _ => trivial) fun _ _ => Check.Yields.ok ⟨rfl, rfl⟩)
  exact extent.value h

namespace Sampler

variable {A : Arithmetic} {p : A.Pixel} {k : A.Coeff} {q : A.Pixel} {α μ ν : Type}

/-- What holds beside a slot: the slot keeps its property, and the rest its own. -/
def Beside (Q : ν → Prop) (I : Trail μ → Prop) (trail : Trail (ν × μ)) : Prop :=
  Q trail.memo.1 ∧ I { memo := trail.memo.2, log := trail.log }

theorem run_besideSlot (probe : Probe (Trail μ) α) (trail : Trail (ν × μ)) :
    (probe.besideSlot (ν := ν)).run.run trail =
      ((probe.run.run { memo := trail.memo.2, log := trail.log }).1,
        { memo := (trail.memo.1, (probe.run.run { memo := trail.memo.2, log := trail.log }).2.memo)
          log := (probe.run.run { memo := trail.memo.2, log := trail.log }).2.log }) := rfl

theorem besideSlot_yields {probe : Probe (Trail μ) α} {Q : ν → Prop} {I : Trail μ → Prop}
    {trail : Trail (ν × μ)} {R : α → Prop} (hQ : Q trail.memo.1)
    (h : Yields E probe { memo := trail.memo.2, log := trail.log } fun a st => I st ∧ R a) :
    Yields E (probe.besideSlot (ν := ν)) trail fun a st => Beside Q I st ∧ R a := by
  unfold Yields at h ⊢
  rw [run_besideSlot]
  rcases hr : probe.run.run { memo := trail.memo.2, log := trail.log } with ⟨_ | a, rest⟩ <;>
    rw [hr] at h
  · exact h
  · exact ⟨⟨hQ, h.1⟩, h.2⟩

theorem besideSlot_shows {s : Sampler (Trail μ) α} {Q : ν → Prop} {I : Trail μ → Prop}
    {pixel : Check α} {x y : Int} {plane : Nat} (h : s.Shows E I pixel x y plane) :
    (s.besideSlot (ν := ν)).Shows E (Beside Q I) pixel x y plane where
  get tolerable _ hst := besideSlot_yields hst.1 (h.get tolerable _ hst.2)
  read tolerable place tracks _ hst :=
    besideSlot_yields hst.1 (h.read tolerable place tracks _ hst.2)

/-- The kernel of a separable filter, kept or built. -/
theorem outerKernel_yields {row col : List (A.Factor k)} {I : Trail μ → Prop}
    (hI : ∀ memo log log', I { memo, log } → I { memo, log := log' })
    (tolerable : (Kernel.outer (A.one k) A.times row col).Tolerable E)
    {trail : Trail (Option (Kernel (A.Factor k)) × μ)}
    (h : Beside (KeepsOuter row col) I trail) :
    Yields E (outerKernel row col) trail fun kernel st =>
      Beside (KeepsOuter row col) I st ∧
        Kernel.outer (A.one k) A.times row col = .ok kernel := by
  obtain ⟨⟨slot, memo⟩, log⟩ := trail
  unfold outerKernel
  refine Yields.bind (Yields.get ?_)
  cases slot with
  | some kernel => exact ⟨h, h.1 kernel rfl⟩
  | none =>
    refine Yields.bind (Yields.modify ?_)
    refine Yields.bind (Yields.probe_check (.of_tolerable tolerable ?_))
    intro kernel built
    refine Yields.bind (Yields.modify ?_)
    refine Yields.pure ⟨⟨?_, hI _ _ _ h.2⟩, built⟩
    rintro _ ⟨⟩
    exact built

end Sampler

namespace View

variable {A : Arithmetic} {p : A.Pixel}

theorem sampler_extent (v : View A p) : v.sampler.cols = v.cols ∧ v.sampler.rows = v.rows := by
  induction v with
  | image | strided | crop => exact ⟨rfl, rfl⟩
  | extend _ _ ih | convolve _ _ _ _ _ ih | separable _ _ _ _ _ _ ih => exact ih

theorem sampler_planes (v : View A p) : v.sampler.planes = v.planes := by
  induction v with
  | image | strided => rfl
  | crop _ _ _ _ _ ih | extend _ _ ih | convolve _ _ _ _ _ ih | separable _ _ _ _ _ _ ih => exact ih

/-- The pixel is part of a moderate evaluation. -/
def Modest (v : View A p) (x y : Int) : Prop := ∃ box, v.Moderate box ∧ box.Has x y

namespace Modest

variable {child : View A p} {k : A.Coeff} {q : A.Pixel} {h : A.product p k = some q}
  {kernel : Kernel (A.Factor k)} {anchor : Anchor kernel.cols kernel.rows} {border : Border}
  {x y : Int}

theorem of_crop {x0 y0 : Int} {cols rows : Nat} (modest : (child.crop x0 y0 cols rows).Modest x y) :
    child.Modest (x + x0) (y + y0) := by
  obtain ⟨box, moderate, has⟩ := modest
  refine ⟨_, moderate.2, ?_⟩
  unfold Box.Has at has ⊢
  simp only
  omega

theorem of_window (modest : (child.convolve h kernel anchor none).Modest x y) {i j : Nat}
    (hi : i < kernel.cols) (hj : j < kernel.rows) :
    child.Modest (x - anchor.shift.1 + i) (y - anchor.shift.2 + j) := by
  obtain ⟨box, moderate, has⟩ := modest
  exact ⟨_, moderate.2.1, Box.windows_has has hi hj⟩

theorem window_extent (modest : (child.convolve h kernel anchor none).Modest x y) :
    child.cols ≤ quarter ∧ child.rows ≤ quarter := by
  obtain ⟨_, moderate, -⟩ := modest
  exact moderate.2.2

theorem of_extend (modest : (child.extend border).Modest x y) : child.Moderate child.bounds := by
  obtain ⟨_, moderate, -⟩ := modest
  exact moderate.2

theorem of_convolve (modest : (child.convolve h kernel anchor (some border)).Modest x y) :
    child.Moderate child.bounds := by
  obtain ⟨_, moderate, -⟩ := modest
  exact moderate.2.1

theorem not_separable {row col : List (A.Factor k)}
    {anchor : Anchor (max 1 row.length) (max 1 col.length)} :
    ¬(child.separable h row col anchor border).Modest x y := by
  rintro ⟨_, moderate, -⟩
  exact moderate

end Modest

/-- The extent of what is read through a border can be measured. -/
theorem Moderate.extent {v : View A p} (h : v.Moderate v.bounds) :
    v.cols ≤ quarter ∧ v.rows ≤ quarter :=
  ⟨h.clear.moderate.width_le, h.clear.moderate.height_le⟩

theorem Moderate.modest {v : View A p} (h : v.Moderate v.bounds) {border : Border}
    {access : Access} {x y i j : Int} (reads : border.Reads access v.cols v.rows x y i j) :
    v.Modest i j := by
  obtain ⟨width, height⟩ := h.extent
  exact ⟨v.bounds, h, reads.has (le_greatest width) (le_greatest height)⟩

section Parts

variable {E : Fault → Prop} {k : A.Coeff} {q : A.Pixel} {h : A.product p k = some q}
  {child : View A p} {border : Border} {x y : Int} {plane : Nat}

/-- What is read through a border is shown. -/
theorem reads_shows (formed : child.WellFormed)
    (room : Tolerant E ∨ child.Moderate child.bounds) (hplane : plane < child.planes)
    (shows : ∀ {x y : Int}, (Tolerant E ∨ child.Modest x y) → child.Holds x y →
      child.sampler.Shows E child.Keeps (child.value .point x y plane) x y plane) {u v : Int}
    (reads : border.Reads .point child.sampler.cols child.sampler.rows x y u v) :
    child.sampler.Shows E child.Keeps (child.value .point u v plane) u v plane := by
  obtain ⟨cols_eq, rows_eq⟩ := child.sampler_extent
  rw [cols_eq, rows_eq] at reads
  exact shows (room.imp_right (·.modest reads))
    (reads.holds (formed.serves (Nat.zero_lt_of_lt hplane)))

/-- Cursors reach all of a child that is read through a border. -/
theorem bounds_admits (sound : child.Sound) (room : Tolerant E ∨ child.Moderate child.bounds)
    (hplane : plane < child.planes) (hx : 0 ≤ x ∧ x ≤ child.sampler.cols)
    (hy : 0 ≤ y ∧ y ≤ child.sampler.rows) : child.sampler.Admits E x y plane := by
  obtain ⟨cols_eq, rows_eq⟩ := child.sampler_extent
  rw [cols_eq] at hx
  rw [rows_eq] at hy
  unfold cols at hx
  unfold rows at hy
  refine admits sound room ?_ ?_ ⟨Int.natCast_nonneg _, Int.ofNat_le.2 (Nat.le_of_lt hplane)⟩
  · simp only [bounds, Tiler.bounds, Box.ofExtent]
    omega
  · simp only [bounds, Tiler.bounds, Box.ofExtent]
    omega

variable {kernel : Kernel (A.Factor k)} {anchor : Anchor kernel.cols kernel.rows}

theorem convolve_none_shows (sound : (child.convolve h kernel anchor none).Sound)
    (room : Tolerant E ∨ (child.convolve h kernel anchor none).Modest x y)
    (holds : (child.convolve h kernel anchor none).Holds x y) (hplane : plane < child.planes)
    (hword : (plane : Int) ≤ Coordinate.greatest)
    (shows : ∀ {x y : Int}, (Tolerant E ∨ child.Modest x y) → child.Holds x y →
      child.sampler.Shows E child.Keeps (child.value .point x y plane) x y plane) :
    (child.convolve h kernel anchor none).sampler.Shows E child.Keeps
      ((child.convolve h kernel anchor none).value .point x y plane) x y plane := by
  obtain ⟨hcols, hrows⟩ := sound.2.extents_le
  obtain ⟨cols_eq, rows_eq⟩ := child.sampler_extent
  apply Sampler.computed_shows
  intro tolerable st hst
  refine Sampler.convolveAt_none_yields hcols hrows
    (Tiler.coverFits_of_extent hcols hrows (room.imp_right ?_)) ?_
    (fun i j hi hj => shows (room.imp_right (·.of_window hi hj)) (holds i j hi hj))
    (fun i j hi hj => ?_) (.inr sound.2) hword tolerable hst
  · rw [cols_eq, rows_eq]
    exact Modest.window_extent
  · rcases room with tolerant | ⟨box, moderate, has⟩
    · exact .inl (tolerant _)
    · exact Tiler.windowFits_of_has (.inr moderate.2.1.clear.moderate) has
  · rcases room with tolerant | ⟨box, moderate, has⟩
    · exact fun fault _ => tolerant fault
    · unfold Box.Has at has
      refine admits sound.1 (.inr moderate.2.1) ?_ ?_
        ⟨Int.natCast_nonneg _, Int.ofNat_le.2 (Nat.le_of_lt hplane)⟩
      · simp only [Box.windows]
        omega
      · simp only [Box.windows]
        omega

theorem convolve_some_shows (sound : (child.convolve h kernel anchor (some border)).Sound)
    (room : Tolerant E ∨ (child.convolve h kernel anchor (some border)).Modest x y)
    (hplane : plane < child.planes) (hword : (plane : Int) ≤ Coordinate.greatest)
    (shows : ∀ {x y : Int}, (Tolerant E ∨ child.Modest x y) → child.Holds x y →
      child.sampler.Shows E child.Keeps (child.value .point x y plane) x y plane) :
    (child.convolve h kernel anchor (some border)).sampler.Shows E child.Keeps
      ((child.convolve h kernel anchor (some border)).value .point x y plane) x y plane := by
  obtain ⟨hcols, hrows⟩ := sound.2.extents_le
  obtain ⟨cols_eq, rows_eq⟩ := child.sampler_extent
  have room' := room.imp_right (·.of_convolve)
  simp only [value, ← cols_eq, ← rows_eq]
  apply Sampler.computed_shows
  intro tolerable st hst
  refine Sampler.convolveAt_some_yields hcols hrows
    (Tiler.coverFits_of_extent hcols hrows (room'.imp_right ?_)) ?_
    (fun i j hi hj u v reads => reads_shows sound.1 room' hplane shows reads)
    (fun u v hu hu' hv hv' => bounds_admits sound.1.sound room' hplane ⟨hu, hu'⟩ ⟨hv, hv'⟩)
    (.inr sound.2) hword tolerable hst
  · rw [cols_eq, rows_eq]
    exact Moderate.extent
  · rcases room with tolerant | ⟨box, moderate, has⟩
    · exact .inl (tolerant _)
    · exact Tiler.windowFits_of_has (.inr moderate.2.2) has

theorem separable_shows {row col : List (A.Factor k)}
    {anchor : Anchor (max 1 row.length) (max 1 col.length)}
    (sound : (child.separable h row col anchor border).Sound) (tolerant : Tolerant E)
    (hplane : plane < child.planes) (hword : (plane : Int) ≤ Coordinate.greatest)
    (shows : ∀ {x y : Int}, (Tolerant E ∨ child.Modest x y) → child.Holds x y →
      child.sampler.Shows E child.Keeps (child.value .point x y plane) x y plane) :
    (child.separable h row col anchor border).sampler.Shows E
      (child.separable h row col anchor border).Keeps
      ((child.separable h row col anchor border).value .point x y plane) x y plane := by
  obtain ⟨formed, hrow, hcol⟩ : child.WellFormed ∧ _ := sound
  obtain ⟨cols_eq, rows_eq⟩ := child.sampler_extent
  simp only [value, ← cols_eq, ← rows_eq]
  apply Sampler.computed_shows
  intro tolerable st hst
  refine Yields.bind ((Sampler.outerKernel_yields (I := child.Keeps) (fun _ _ _ h => h)
    tolerable.of_bind hst).mono ?_)
  rintro kernel st ⟨hst, outer⟩
  obtain ⟨kcols, krows⟩ := Kernel.outer_extent outer
  unfold denseSum at tolerable ⊢
  rw [outer, Check.ok_bind] at tolerable ⊢
  refine Sampler.convolveAt_some_yields (I := Sampler.Beside (KeepsOuter row col) child.Keeps)
    ?_ ?_ (.inl (tolerant _)) (.inl (tolerant _)) (fun i j hi hj u v reads => ?_)
    (fun _ _ _ _ _ _ fault _ => tolerant fault) (.inl (tolerant _)) hword tolerable hst
  · rw [kcols]
    unfold Coordinate.greatest at *
    omega
  · rw [krows]
    unfold Coordinate.greatest at *
    omega
  · exact Sampler.besideSlot_shows (reads_shows formed (.inl tolerant) hplane shows reads)

end Parts

/-- Point access and cursors show every pixel that the view holds. -/
theorem shows {v : View A p} (sound : v.Sound) {x y : Int} {plane : Nat}
    (room : Tolerant E ∨ v.Modest x y) (holds : v.Holds x y) (hplane : plane < v.planes)
    (hword : (plane : Int) ≤ Coordinate.greatest) :
    v.sampler.Shows E v.Keeps (v.value .point x y plane) x y plane := by
  induction v generalizing x y with
  | image pixels => exact pixels.shows sound holds hplane
  | strided grid => exact Strided.shows sound holds hplane
  | crop child x0 y0 cols rows ih =>
    refine Sampler.crop_shows (ih sound (room.imp_right (·.of_crop)) holds hplane)
      (room.imp (· _) ?_)
    rintro ⟨box, moderate, has⟩
    have bounds := moderate.2.clear.moderate.bounds
    unfold Box.Has at has
    simp only [quarter] at bounds
    unfold Coordinate.Fits Coordinate.least Coordinate.greatest
    omega
  | extend child border ih =>
    have formed : child.WellFormed := sound
    obtain ⟨cols_eq, rows_eq⟩ := child.sampler_extent
    simp only [value, ← cols_eq, ← rows_eq]
    exact Sampler.extend_shows fun i j reads =>
      reads_shows formed (room.imp_right (·.of_extend)) hplane
        (fun room holds => ih formed.sound room holds hplane) reads
  | convolve child _ kernel anchor border ih =>
    cases border with
    | none =>
      exact convolve_none_shows sound room holds hplane hword fun room holds =>
        ih sound.1 room holds hplane
    | some border =>
      exact convolve_some_shows sound room hplane hword fun room holds =>
        ih sound.1.sound room holds hplane
  | separable child _ row col anchor border ih =>
    exact separable_shows sound (room.resolve_right Modest.not_separable) hplane hword
      fun room holds => ih sound.1.sound room holds hplane

end View

end ImageViews
