import ImageViews.Proofs.Hulls
import ImageViews.Proofs.Quiet

/-!
# What is asked of a source

A source is watched by letting it mark every box that it is asked for. An extension or a filter of
it asks for one box at most, and for the same one whatever the destination holds: the smallest box
with the pixels that its border reads. It asks for none if there are no such pixels, or if words or
memory are exhausted before it comes to ask.
-/
namespace ImageViews

variable {σ α β γ ε : Type} {n : Nat}

/-- The tiler, which leaves a mark of every box that it is asked for, and no other record. -/
def Tiler.watched (t : Tiler α) (mark : Box → Record) : Tiler α where
  cols := t.cols
  rows := t.rows
  planes := t.planes
  rasterize handle box := ExceptT.mk fun (cells, log) =>
    let (result, cells, _) := (t.rasterize handle box).run.run (cells, log)
    (result, cells, log ++ [mark box])

@[simp] theorem Tiler.watched_bounds (t : Tiler α) (mark : Box → Record) :
    (t.watched mark).bounds = t.bounds := rfl

/-- Words or memory do not suffice. -/
def Exhausted (fault : Fault) : Prop := fault = .overflow ∨ fault = .capacity

/-- Whatever the evaluation comes to, it adds the given records to the log. -/
def Adds (log : σ → Log) (m : ExceptT ε (StateM σ) α) (entries : Log) : Prop :=
  ∀ s, log (m.run.run s).2 = log s ++ entries

/-- Nothing is recorded. -/
def Regime.silent : Regime Log where
  Good _ := True
  Allowed change := ∀ log, change log = log
  allowed_id _ := rfl
  allowed_comp hf hg log := by rw [Function.comp_apply, hf, hg]
  good _ _ := trivial

namespace Adds

variable {log : σ → Log} {m : ExceptT ε (StateM σ) α}

theorem of_settles {m : ExceptT ε (StateM Log) α} (h : Settles .silent m) : Adds id m [] := by
  obtain ⟨result, change, silent, run⟩ := h
  intro log
  rw [run log trivial]
  simp [silent log]

theorem of_painting {m : ExceptT ε (StateM (Vector γ n × Log)) α}
    (h : Settles (Regime.silent.painting γ n) m) : Adds Prod.snd m [] := by
  obtain ⟨result, _, ⟨paints, change, silent, rfl⟩, run⟩ := h
  intro s
  rw [run s trivial]
  simp [silent s.2]

/-- What follows without a record. -/
theorem bind {entries : Log} {f : α → ExceptT ε (StateM σ) β} (h : Adds log m entries)
    (hf : ∀ a, Adds log (f a) []) : Adds log (m >>= f) entries := by
  intro s
  have first := h s
  rw [run_bind]
  rcases hm : m.run.run s with ⟨cause | a, s'⟩ <;> rw [hm] at first
  · exact first
  · have second := hf a s'
    rw [List.append_nil] at second
    exact second.trans first

end Adds

/-- Watched, the evaluation leaves the records `own`, and then asks for the boxes `asked`, which are
`Q`; or it ends before it asks for any, because words or memory do not suffice. -/
structure Asks (log : σ → Log) (own : Log) (m : (Box → Record) → ExceptT Failure (StateM σ) α)
    (Q : List Box → Prop) (asked : List Box) : Prop where
  adds : ∀ mark, Adds log (m mark) (own ++ asked.map mark)
  right : Q asked ∨ asked = [] ∧ ∀ mark s,
    ∃ fault, Exhausted fault ∧ ((m mark).run.run s).1 = .error (.fault fault)

namespace Asks

variable {log : σ → Log} {m : (Box → Record) → ExceptT Failure (StateM σ) α} {own : Log}
  {Q : List Box → Prop} {asked : List Box}

theorem silent (h : ∀ mark, Adds log (m mark) []) (nothing : Q []) : Asks log [] m Q [] :=
  ⟨h, .inl nothing⟩

theorem exhausted {fault : Fault} (exhausted : Exhausted fault) {f : β → (Box → Record) →
    ExceptT Failure (StateM σ) α} :
    Asks log [] (fun mark => liftM (.error fault : Check β) >>= (f · mark)) Q [] :=
  ⟨fun _ _ => (List.append_nil _).symm, .inr ⟨rfl, fun _ _ => ⟨fault, exhausted, rfl⟩⟩⟩

/-- A check before anything is asked. -/
theorem check {check : Check β} {P : β → Prop}
    {f : β → (Box → Record) → ExceptT Failure (StateM σ) α} (h : check.Yields Exhausted P)
    (hf : ∀ b, P b → ∃ asked, Asks log [] (f b) Q asked) :
    ∃ asked, Asks log [] (fun mark => liftM check >>= (f · mark)) Q asked := by
  cases check with
  | ok b => exact hf b h
  | error fault => exact ⟨[], exhausted h⟩

/-- What follows the request asks for nothing. -/
theorem bind {f : α → (Box → Record) → ExceptT Failure (StateM σ) β} (h : Asks log own m Q asked)
    (hf : ∀ a mark, Adds log (f a mark) []) :
    Asks log own (fun mark => m mark >>= (f · mark)) Q asked where
  adds mark := (h.adds mark).bind (hf · mark)
  right := by
    apply h.right.imp_right
    intro ⟨nothing, halts⟩
    refine ⟨nothing, fun mark s => ?_⟩
    obtain ⟨fault, exhausted, outcome⟩ := halts mark s
    refine ⟨fault, exhausted, ?_⟩
    rw [run_bind]
    rcases hm : (m mark).run.run s with ⟨_ | a, s'⟩ <;> rw [hm] at outcome
    · exact congrArg Except.error (Except.error.inj outcome)
    · cases outcome

/-- Rendering while painting. -/
theorem render {m : (Box → Record) → Render α} (h : Asks id own m Q asked) :
    Asks Prod.snd own (fun mark => (liftM (m mark) : Paint Log γ n α)) Q asked where
  adds mark s := h.adds mark s.2
  right := h.right.imp_right fun ⟨nothing, halts⟩ => ⟨nothing, fun mark s => halts mark s.2⟩

theorem onto {m : (Box → Record) → Paint Log γ n Unit} (h : Asks Prod.snd own m Q asked)
    (cells : Vector γ n) : Asks id own (fun mark => (m mark).onto cells) Q asked where
  adds mark s := h.adds mark (cells, s)
  right := by
    apply h.right.imp_right
    intro ⟨nothing, halts⟩
    refine ⟨nothing, fun mark s => ?_⟩
    obtain ⟨fault, exhausted, outcome⟩ := halts mark (cells, s)
    exact ⟨fault, exhausted, by rw [run_onto, outcome]; rfl⟩

/-- A destination that is accepted. -/
theorem accept {handle : Handle n} {box : Box} {planes : Nat} (takes : handle.Takes box planes)
    {m : (Box → Record) → Paint Log γ n Unit} (h : Asks Prod.snd own m Q asked) :
    Asks Prod.snd own (fun mark => liftM (handle.accept box planes) >>= fun _ => m mark) Q
      asked := by
  rw [Handle.accept_eq_ok.2 takes]
  exact h

/-- The record of the filter itself comes first. -/
theorem record {record : Record} {m : (Box → Record) → Paint Log γ n Unit}
    (h : Asks Prod.snd [] m Q asked) :
    Asks Prod.snd [record] (fun mark => Paint.record record >>= fun _ => m mark) Q asked where
  adds mark s := by
    obtain ⟨cells, log⟩ := s
    exact (h.adds mark (cells, log ++ [record])).trans (List.append_assoc ..)
  right := h.right.imp_right fun ⟨nothing, halts⟩ =>
    ⟨nothing, fun mark s => halts mark (s.1, s.2 ++ [record])⟩

end Asks

section Room

variable {bytes cols rows planes : Nat}

theorem Image.allocate_exhausts (hbytes : 0 < bytes) :
    (Image.allocate bytes cols rows planes).Yields Exhausted fun _ =>
      ((cols * rows * planes : Nat) : Int) ≤ Coordinate.greatest := by
  refine .of_tolerable (Check.Yields.tolerable (Q := fun _ => True) ?_)
    fun _ => (allocate_yields hbytes (.inl Lenient.tolerant)).value
  refine .bind (.bind (Extent.mul_yields (.inl (.inl rfl)) fun _ => ?_))
  refine Extent.mul_yields (.inl (.inl rfl)) fun _ => ?_
  exact .require (.inl (.inr rfl)) fun _ => trivial

theorem Handle.whole_exhausts (hn : ((cols * rows * planes : Nat) : Int) ≤ Coordinate.greatest) :
    (whole (cols * rows * planes) cols rows planes).Yields Exhausted fun handle =>
      handle.Sound ∧ handle.IsWhole cols rows planes := by
  refine .of_tolerable (Check.Yields.tolerable (Q := fun _ => True) ?_)
    fun _ => (whole_yields hn (.inl Lenient.tolerant)).value
  refine .bind (.bind (Extent.mul_yields (.inl (.inl rfl)) fun _ => ?_))
  refine Extent.mul_yields (.inl (.inl rfl)) fun _ => ?_
  refine .bind (.require (.inr (Nat.le_refl _)) fun _ => ?_)
  exact .bind (Extent.mul_yields (.inl (.inl rfl)) fun _ => .ok trivial)

theorem Tiler.borderIndices_exhausts {border : Border} {first : Int} {length len : Nat}
    (hlen : 0 < len) (hle : (len : Int) ≤ Coordinate.greatest) :
    (borderIndices border first length len).Yields Exhausted (Indexes border first len) := by
  refine .of_tolerable (Check.Yields.tolerable (Q := fun _ => True) ?_)
    fun _ => (borderIndices_yields (.inl Lenient.tolerant)).value
  refine .bind (.require (.inl (.inr rfl)) fun _ => ?_)
  refine (tabulate_yields fun i _ => Check.Yields.tolerable (Q := fun _ => True) ?_).mono
    fun _ _ => trivial
  refine .bind (Coordinate.add_yields (.inl (.inl rfl)) fun _ => ?_)
  exact (border.index_yields hlen hle (.inl (.inl rfl))).mono fun _ _ => trivial

theorem Tiler.spanBox_exhausts {cols rows : Nat × Nat} :
    (spanBox cols rows).Yields Exhausted (· = between cols rows) := by
  refine .of_tolerable (Check.Yields.tolerable (Q := fun _ => True) ?_)
    fun _ => (spanBox_yields (.inl Lenient.tolerant)).value
  refine .bind (Coordinate.add_yields (.inl (.inl rfl)) fun _ => ?_)
  refine .bind (Coordinate.add_yields (.inl (.inl rfl)) fun _ => ?_)
  exact (Box.ofCorners_yields (.inl (.inl rfl))).mono fun _ _ => trivial

/-- A length that is greater than all coordinates is negative as a signed word, so the corner
behind it overflows. -/
theorem Box.high_exhausts {b : Box} (fits : b.Fits) :
    b.high.Yields Exhausted fun _ =>
      (b.width : Int) ≤ Coordinate.greatest ∧ (b.height : Int) ≤ Coordinate.greatest := by
  have measured {i : Int} {length : Nat} (fits : Coordinate.Fits (i + length))
      (word : Coordinate.Fits (i + Coordinate.ofExtent length)) :
      (length : Int) ≤ Coordinate.greatest := by
    unfold Coordinate.Fits Coordinate.least Coordinate.greatest Coordinate.ofExtent at *
    split at word <;> omega
  refine .bind (Coordinate.add_yields (.inl (.inl rfl)) fun right => ?_)
  refine .bind (Coordinate.add_yields (.inl (.inl rfl)) fun bottom => ?_)
  exact .ok ⟨measured fits.right right, measured fits.bottom bottom⟩

end Room

namespace Tiler

variable {t : Tiler α} {storage : Storage α} {border : Border} {box : Box} {Q : List Box → Prop}

/-- A new image is made room for before anything is asked. -/
theorem render_asks {cols rows planes : Nat}
    {paint : (Box → Record) → Handle (cols * rows * planes) →
      Paint Log α (cols * rows * planes) Unit}
    (h : ∀ handle, handle.Sound → handle.IsWhole cols rows planes →
      ((cols * rows * planes : Nat) : Int) ≤ Coordinate.greatest →
      ∃ asked, Asks Prod.snd [] (paint · handle) Q asked) :
    ∃ asked, Asks id [] (fun mark => Image.render storage cols rows planes (paint mark)) Q
      asked := by
  refine Asks.check (Image.allocate_exhausts storage.bytes_pos) fun _ hn => ?_
  refine Asks.check (Handle.whole_exhausts hn) fun handle ⟨sound, whole⟩ => ?_
  obtain ⟨asked, asks⟩ := h handle sound whole hn
  exact ⟨asked, (asks.onto _).bind fun cells mark => fun _ => (List.append_nil _).symm⟩

/-- A box that is rasterized is asked for. -/
theorem rasterize_asks {handle : Handle n} (hbox : Q [box]) :
    Asks Prod.snd [] (fun mark => (t.watched mark).rasterize handle box) Q [box] :=
  ⟨fun _ _ => rfl, .inl hbox⟩

/-- A box that is rendered is asked for. -/
theorem region_asks (t : Tiler α) (storage : Storage α) (hbox : Q [box]) :
    ∃ asked, Asks id [] (fun mark => (t.watched mark).region storage box) Q asked :=
  render_asks fun _ _ _ _ => ⟨[box], rasterize_asks hbox⟩

theorem paintPart_asks {handle : Handle n} {part : Box} (hs : handle.Sound)
    (takes : handle.Takes box t.planes) (within : part.Within box)
    (word : handle.cols < Extent.modulus ∧ handle.rows < Extent.modulus)
    (strides : 0 < handle.planes ∨ handle.colStride = 0 ∧ handle.rowStride = 0)
    (hpart : Q [part]) :
    ∃ asked, Asks Prod.snd [] (fun mark => (t.watched mark).paintPart box part handle) Q
      asked := by
  obtain ⟨cols_eq, rows_eq, -⟩ := takes
  unfold Box.Within at within
  refine Asks.check (Coordinate.sub_yields (Q := (· = part.x - box.x)) (.inl (.inl rfl))
    fun _ => rfl) ?_
  rintro _ rfl
  refine Asks.check (Coordinate.sub_yields (Q := (· = part.y - box.y)) (.inl (.inl rfl))
    fun _ => rfl) ?_
  rintro _ rfl
  rw [Extent.ofCoordinate_of_nonneg (by omega), Extent.ofCoordinate_of_nonneg (by omega)]
  refine Asks.check (Handle.window_yields hs (.inr ⟨by omega, word, strides⟩)) ?_
  intro window _
  exact ⟨[part], rasterize_asks hpart⟩

theorem padded_asks (blank : border.Blank t.cols t.rows)
    (hwidth : (box.width : Int) ≤ Coordinate.greatest)
    (hheight : (box.height : Int) ≤ Coordinate.greatest)
    (hcols : (t.cols : Int) ≤ Coordinate.greatest) (hrows : (t.rows : Int) ≤ Coordinate.greatest) :
    ∃ asked, Asks id [] (fun mark => (t.watched mark).padded storage box)
      (Requests (border.Needs t.cols t.rows box) t.bounds) asked := by
  have requests := Border.requests_of_overlap blank hwidth hheight hcols hrows
  have common : (box.intersect t.bounds).Yields Exhausted (· = if (box.overlap t.bounds).IsEmpty
      then none else some (box.overlap t.bounds)) :=
    Box.intersect_yields (.inl (.inl rfl)) (.inl (.inl rfl)) (.inl (.inl rfl))
  refine Asks.check common ?_
  rintro _ rfl
  rw [← bounds] at requests
  by_cases empty : (box.overlap t.bounds).IsEmpty
  · rw [if_pos empty] at requests ⊢
    exact ⟨[], .silent (fun _ => .of_settles (.check _)) requests⟩
  · rw [if_neg empty] at requests ⊢
    refine render_asks fun handle hs whole hn => ?_
    have within := Box.overlap_within empty
      (by rw [Box.right, Coordinate.ofExtent_of_le hwidth])
      (by rw [Box.bottom, Coordinate.ofExtent_of_le hheight])
      (by rw [Box.right, bounds, Box.ofExtent, Coordinate.ofExtent_of_le hcols])
      (by rw [Box.bottom, bounds, Box.ofExtent, Coordinate.ofExtent_of_le hrows])
    refine paintPart_asks hs ⟨whole.cols_eq, whole.rows_eq, whole.planes_eq⟩ within.1 ?_ ?_ requests
    · have := whole.cols_eq
      have := whole.rows_eq
      unfold Coordinate.greatest at hwidth hheight
      unfold Extent.modulus
      omega
    · exact (Nat.eq_zero_or_pos t.planes).symm.imp (whole.planes_eq.symm ▸ ·) whole.strides_eq

theorem mapped_asks (nonempty : ¬box.IsEmpty) (shown : ¬border.Blank t.cols t.rows)
    (hcols : (t.cols : Int) ≤ Coordinate.greatest) (hrows : (t.rows : Int) ≤ Coordinate.greatest) :
    ∃ asked, Asks id [] (fun mark => (t.watched mark).mapped border storage box)
      (Requests (border.Needs t.cols t.rows box) t.bounds) asked := by
  have pos : 0 < t.cols ∧ 0 < t.rows := by
    unfold Border.Blank at shown
    omega
  refine Asks.check (borderIndices_exhausts pos.1 hcols) fun xs hxs => ?_
  refine Asks.check (borderIndices_exhausts pos.2 hrows) fun ys hys => ?_
  refine Asks.check spanBox_exhausts ?_
  rintro _ rfl
  obtain ⟨asked, asks⟩ := region_asks t storage
    (Border.requests_of_indexes nonempty shown hcols hrows hxs hys)
  exact ⟨asked, asks.bind fun _ _ => .of_settles (.check _)⟩

/-- A box that signed words cannot measure is not compared with the extent. -/
theorem extend_exhausts (nonempty : ¬box.IsEmpty) (fits : box.Fits)
    (long : ¬((box.width : Int) ≤ Coordinate.greatest ∧
      (box.height : Int) ≤ Coordinate.greatest)) :
    Asks id [] (fun mark => (t.watched mark).extend border storage box) Q [] := by
  have compared : (t.bounds.containsBox box).Yields Exhausted fun _ => False := by
    refine .bind ((Box.high_yields (.inl (.inl rfl))).mono fun _ _ => ?_)
    exact .bind ((Box.high_exhausts fits).mono fun _ short => absurd short long)
  unfold extend
  simp only [if_neg nonempty]
  change Asks id [] (fun mark => liftM (t.bounds.containsBox box) >>= fun contained => _) Q []
  cases h : t.bounds.containsBox box with
  | ok contained => exact (compared.value h).elim
  | error fault =>
    rw [h] at compared
    exact .exhausted compared

/-- An extension of a box asks for the smallest box with the pixels that it needs. -/
theorem extend_asks (storage : Storage α) (border : Border) (nonempty : ¬box.IsEmpty)
    (fits : box.Fits) (hcols : (t.cols : Int) ≤ Coordinate.greatest)
    (hrows : (t.rows : Int) ≤ Coordinate.greatest) :
    ∃ asked, Asks id [] (fun mark => (t.watched mark).extend border storage box)
      (Requests (border.Needs t.cols t.rows box) t.bounds) asked := by
  by_cases long : ¬((box.width : Int) ≤ Coordinate.greatest ∧
      (box.height : Int) ≤ Coordinate.greatest)
  · exact ⟨[], extend_exhausts nonempty fits long⟩
  obtain ⟨hwidth, hheight⟩ := Decidable.not_not.1 long
  have compared : (t.bounds.containsBox box).Yields Exhausted fun contained => contained = true ↔
      (t.bounds.x ≤ box.x ∧ box.right ≤ t.bounds.right) ∧
        t.bounds.y ≤ box.y ∧ box.bottom ≤ t.bounds.bottom :=
    Box.containsBox_yields (.inl (.inl rfl)) (.inl (.inl rfl))
  unfold extend
  simp only [if_neg nonempty]
  refine Asks.check compared fun contained h => ?_
  by_cases inside : contained = true
  · simp only [if_pos inside]
    have within := h.1 inside
    rw [Box.right, Box.bottom, Coordinate.ofExtent_of_le hwidth,
      Coordinate.ofExtent_of_le hheight, bounds, Box.right_ofExtent, Box.bottom_ofExtent,
      Coordinate.ofExtent_of_le hcols, Coordinate.ofExtent_of_le hrows] at within
    refine region_asks t storage (Border.requests_of_within nonempty ?_)
    simpa [Box.Within, Box.ofExtent] using within
  · simp only [if_neg inside]
    by_cases blank : border = .zero ∨ t.bounds.IsEmpty
    · simp only [watched_bounds, blank, if_true]
      exact padded_asks blank hwidth hheight hcols hrows
    · simp only [watched_bounds, blank, if_false]
      exact mapped_asks nonempty blank hcols hrows

end Tiler

end ImageViews
