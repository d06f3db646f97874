import ImageViews.Pixel.Standard
import ImageViews.Proofs.Caching
import ImageViews.Proofs.Reaching
import ImageViews.Proofs.Refusals
import ImageViews.View.Session

/-!
# Kernels over a session

However queries are ordered, every answer is the one that an untouched view gives. Boxes are
evaluated without any dense kernel; each separable filter builds its kernel when the first point
access reaches it, and keeps it.
-/
namespace ImageViews

variable {A : Arithmetic} {p : A.Pixel}

namespace View

theorem Keeps.good {v : View A p} {trail : Trail v.Memo} (h : v.Keeps trail) :
    (Regime.caching v.cache).Good trail := by
  change v.cache.Valid trail.memo
  rw [v.cache_valid]
  exact h

/-- The query has one answer, and makes one change that the cache allows. -/
def Asks (v : View A p) (query : Query A p) : Prop :=
  ∃ answer change, (Regime.caching v.cache).Allowed change ∧
    ∀ trail, v.Keeps trail → v.ask query trail = (answer, change trail)

theorem reply_asks {α : Type} {v : View A p} {probe : Probe (Trail v.Memo) α}
    (h : Settles (.caching v.cache) probe) (reply : Check α → Answer A p) :
    ∃ answer change, (Regime.caching v.cache).Allowed change ∧
      ∀ trail, v.Keeps trail → probe.reply reply trail = (answer, change trail) := by
  obtain ⟨result, change, allowed, run⟩ := h
  refine ⟨reply result, change, allowed, fun trail keeps => ?_⟩
  rw [Probe.reply, run trail keeps.good]

theorem cursor_settles (v : View A p) (moves : List Move) :
    Settles (.caching v.cache) (v.cursor moves) := by
  apply Settles.bind (.probe_check _)
  intro start
  apply Settles.bind (.probe_check _)
  intro place
  exact v.sampler_settled.read place

theorem kernel_asks (v : View A p) : v.Asks .kernel := by
  cases v with
  | separable child h row col anchor border =>
    exact reply_asks (v := .separable child h row col anchor border) Sampler.outerKernel_settles
      fun outcome => .kernel (some ⟨_, outcome⟩)
  | image | strided | crop | extend | convolve =>
    exact ⟨.kernel none, id, Regime.allowed_id _, fun _ _ => rfl⟩

/-- What goes through the tiler leaves the kernels alone, and records no building. -/
theorem ask_tiled (v : View A p) {query : Query A p} (tiled : query.tiled = true) :
    ∃ answer added, Log.builds added = [] ∧ ∀ trail,
      v.ask query trail = (answer, { trail with log := trail.log ++ added }) := by
  have rendered {α : Type} {render : Render α} (h : Quiet render)
      (reply : Except Failure α → Answer A p) : ∃ answer added, Log.builds added = [] ∧
        ∀ trail : Trail v.Memo,
          render.reply reply trail = (answer, { trail with log := trail.log ++ added }) := by
    obtain ⟨result, change, ⟨added, quiet, change_eq⟩, run⟩ := h
    refine ⟨reply result, added, quiet, fun trail => ?_⟩
    rw [Render.reply, run trail.log trivial, change_eq]
  cases query with
  | get | pixel | cursor | kernel | paint => cases tiled
  | rasterize handle cells box =>
    obtain ⟨result, _, ⟨paints, change, ⟨added, quiet, change_eq⟩, rfl⟩, run⟩ :=
      v.tiler_quiet handle box
    refine ⟨.cells result (paints cells), added, quiet, fun trail => ?_⟩
    simp only [ask, rasterize, run (cells, trail.log) trivial, Prod.map, change_eq]
  | toImage => exact rendered (Tiler.Quiet.region v.tiler_quiet _ _) .image
  | region box => exact rendered (Tiler.Quiet.region v.tiler_quiet _ box) .image
  | extendedRegion border box =>
    exact rendered (Tiler.Quiet.extend v.tiler_quiet border _ box) .image
  | prerasterize box => exact rendered (v.prerasterize_quiet box) .view

theorem asks (v : View A p) (query : Query A p) : v.Asks query := by
  cases tiled : query.tiled with
  | true =>
    obtain ⟨answer, added, quiet, ask⟩ := v.ask_tiled tiled
    refine ⟨answer, _, ⟨v.cache.empty, v.cache.empty_valid, fun trail => ?_⟩,
      fun trail _ => ask trail⟩
    refine ⟨(v.cache.join_empty _).symm, added, rfl, fun _ => ?_⟩
    rw [quiet, v.cache.missing_empty]
  | false =>
    cases query with
    | get x y plane => exact reply_asks (v.sampler_settled.get x y plane) .pixel
    | pixel border x y plane => exact reply_asks (v.sampler_settled.pixel border _ x y plane) .pixel
    | cursor moves => exact reply_asks (v.cursor_settles moves) .pixel
    | kernel => exact v.kernel_asks
    | paint handle cells box =>
      obtain ⟨result, _, ⟨paints, change, allowed, rfl⟩, run⟩ := v.sampler_settled.paint handle box
      refine ⟨.cells result (paints cells), change, allowed, fun trail keeps => ?_⟩
      simp only [ask, paint, run (cells, trail) keeps.good, Prod.map]
    | rasterize | toImage | region | extendedRegion | prerasterize => cases tiled

/-- What asking a query does, told by what it does when nothing was asked before. -/
structure Keeping (v : View A p) (query : Query A p) (trail : Trail v.Memo) : Prop where
  /-- The answer is that of an untouched view. -/
  answer : (v.ask query trail).1 = (v.askFresh query).1
  /-- The kernels that are reached join the ones that are kept. -/
  memo : (v.ask query trail).2.memo = v.cache.join trail.memo (v.askFresh query).2.memo
  /-- The kernels that are reached are those of the filters that the query goes through. -/
  reached : (v.askFresh query).2.memo = v.reached query
  /-- A record is left of each kernel that is reached and was not kept. -/
  log : ∃ added, (v.ask query trail).2.log = trail.log ++ added ∧ (v.cache.Buildable →
    (Log.builds added).Perm (v.cache.missing trail.memo (v.askFresh query).2.memo))
  keeps : v.Keeps (v.ask query trail).2

theorem keeping (v : View A p) (query : Query A p) {trail : Trail v.Memo}
    (keeps : v.Keeps trail) : v.Keeping query trail := by
  obtain ⟨answer, change, allowed, ask⟩ := v.asks query
  have good := (Regime.caching v.cache).good allowed keeps.good
  obtain ⟨reached, valid, effect⟩ := allowed
  have fresh : (v.askFresh query).2.memo = reached := by
    rw [askFresh, ask _ v.keeps_empty, (effect _).1, ← v.cache_empty, v.cache.empty_join]
  constructor
  · rw [askFresh, ask trail keeps, ask _ v.keeps_empty]
  · rw [fresh, ask trail keeps, (effect trail).1]
  · exact v.askFresh_reached query
  · obtain ⟨added, log, builds⟩ := (effect trail).2
    refine ⟨added, ?_, fun buildable => ?_⟩
    · rw [ask trail keeps, log]
    · rw [fresh]
      exact builds buildable
  · rw [ask trail keeps]
    change v.cache.Valid _ at good
    rw [v.cache_valid] at good
    exact good

/-- A view without separable filters has no kernels to keep. -/
theorem Plain.unkept {v : View A p} (plain : v.Plain) :
    (∀ memo memo' : v.Memo, memo = memo') ∧ v.cache.Buildable ∧
      ∀ memo reached, v.cache.missing memo reached = [] := by
  induction v with
  | image | strided => exact ⟨fun _ _ => rfl, trivial, fun _ _ => rfl⟩
  | crop _ _ _ _ _ ih | extend _ _ ih | convolve _ _ _ _ _ ih => exact ih plain
  | separable => exact plain.elim

/-- Neither boxes nor prerasterized views have kernels built. -/
theorem ask_unbuilt (v : View A p) {query : Query A p} {trail : Trail v.Memo}
    (keeps : v.Keeps trail) (h : query.tiled = true ∨ v.Plain) :
    (v.ask query trail).2.memo = trail.memo ∧
      ∃ added, (v.ask query trail).2.log = trail.log ++ added ∧ Log.builds added = [] := by
  rcases h with tiled | plain
  · obtain ⟨answer, added, quiet, ask⟩ := v.ask_tiled tiled
    rw [ask]
    exact ⟨rfl, added, rfl, quiet⟩
  · obtain ⟨added, log, builds⟩ := (v.keeping query keeps).log
    obtain ⟨unique, buildable, missing⟩ := plain.unkept
    have perm := builds buildable
    rw [missing] at perm
    exact ⟨unique _ _, added, log, perm.eq_nil⟩

theorem ask_opens (v : View A p) (query : Query A p) (trail : Trail v.Memo) :
    ∀ o ∈ (v.ask query trail).1.opens, o.view.Plain ∧ Memo.Valid o.view o.memo := by
  intro o member
  cases query with
  | prerasterize box =>
    have plain := v.prerasterize_unrefused box trail.log
    rcases run : (v.prerasterize box).run.run trail.log with ⟨_ | v', log⟩
    · simp only [ask, Render.reply, run, Answer.opens] at member
      cases member
    · simp only [ask, Render.reply, run, Answer.opens] at member
      obtain rfl := List.mem_singleton.1 member
      exact ⟨plain.value run, Memo.empty_valid v'⟩
  | kernel =>
    have none : (v.ask .kernel trail).1.opens = [] := by
      cases v <;> rfl
    rw [none] at member
    cases member
  | get | pixel | cursor | paint | rasterize | toImage | region | extendedRegion => cases member

end View

namespace Session

/-- The view and its kernels come first, and one record was left of each kernel that is kept; the
other views were prerasterized. -/
structure Disciplined (v : View A p) (s : Session A p) : Prop where
  first : ∃ memo others, s.opened = { view := v, memo } :: others ∧ (∀ o ∈ others, o.view.Plain) ∧
    (v.cache.Buildable → (Log.builds s.log).Perm (v.cache.missing v.cache.empty memo))
  valid : ∀ o ∈ s.opened, View.Memo.Valid o.view o.memo

variable {v : View A p} {s : Session A p}

theorem start_disciplined (v : View A p) : (start v).Disciplined v where
  first := by
    refine ⟨View.Memo.empty v, [], rfl, fun _ member => (nomatch member), fun _ => ?_⟩
    rw [← v.cache_empty, v.cache.missing_empty]
    rfl
  valid o member := by
    obtain rfl := List.mem_singleton.1 member
    exact View.Memo.empty_valid v

theorem Disciplined.step (h : s.Disciplined v) (request : Nat × Query A p) :
    (s.step request).Disciplined v := by
  obtain ⟨i, query⟩ := request
  unfold Session.step
  cases found : s.opened[i]? with
  | none => exact h
  | some o =>
    obtain ⟨view, memo⟩ := o
    have keeps : view.Keeps { memo, log := s.log } := h.valid _ (List.mem_of_getElem? found)
    have opens := view.ask_opens query { memo, log := s.log }
    constructor
    · obtain ⟨first, others, opened, plain, built⟩ := h.first
      rw [opened] at found
      cases i with
      | zero =>
        obtain ⟨⟩ := Option.some.inj found
        have keeping := v.keeping query keeps
        obtain ⟨added, log, builds⟩ := keeping.log
        refine ⟨_, others ++ _, by rw [opened]; rfl, fun o member => ?_, fun buildable => ?_⟩
        · rcases List.mem_append.1 member with old | new
          · exact plain o old
          · exact (opens o new).1
        · have joined := v.cache.missing_join v.cache.empty first (v.askFresh query).2.memo
          rw [v.cache.empty_join] at joined
          simp only [log, Log.builds_append, keeping.memo]
          exact ((built buildable).append (builds buildable)).trans joined.symm
      | succ i =>
        have other : view.Plain := plain _ (List.mem_of_getElem? found)
        obtain ⟨-, added, log, unbuilt⟩ := view.ask_unbuilt keeps (.inr other)
        refine ⟨first, _, by rw [opened]; rfl, fun o member => ?_, fun buildable => ?_⟩
        · rcases List.mem_append.1 member with old | new
          · rcases List.mem_or_eq_of_mem_set old with kept | rfl
            · exact plain o kept
            · exact other
          · exact (opens o new).1
        · change (Log.builds (view.ask query { memo, log := s.log }).2.log).Perm _
          rw [log, Log.builds_append, unbuilt, List.append_nil]
          exact built buildable
    · intro o member
      rcases List.mem_append.1 member with old | new
      · rcases List.mem_or_eq_of_mem_set old with kept | rfl
        · exact h.valid o kept
        · exact (view.keeping query keeps).keeps
      · exact (opens o new).2

theorem run_disciplined (v : View A p) (requests : List (Nat × Query A p)) :
    ((start v).run requests).Disciplined v := by
  have go (s : Session A p) (h : s.Disciplined v) : (s.run requests).Disciplined v := by
    induction requests generalizing s with
    | nil => exact h
    | cons request requests ih => exact ih (s.step request) (h.step request)
  exact go (start v) (start_disciplined v)

/-- After any requests the kernels that are kept are the outer products of their factors, and so is
the kernel that is answered. Whatever is asked next has the answer of an untouched view. A box, or a
view that was prerasterized, has no kernel built. If no product faults, one record was left of each
kernel that is kept, and the kernels that are built next are those that are not kept of the filters
that the query goes through. -/
theorem kernels_built_once (v : View A p) (requests : List (Nat × Query A p)) :
    let s := (start v).run requests
    (∃ memo others, s.opened = { view := v, memo } :: others ∧ (∀ o ∈ others, o.view.Plain) ∧
      (v.cache.Buildable → (Log.builds s.log).Perm (v.cache.missing v.cache.empty memo))) ∧
    ∀ o ∈ s.opened, (View.Memo.Valid o.view o.memo ∧
      (o.view.ask .kernel { memo := o.memo, log := s.log }).1 = .kernel o.view.dense?) ∧
      ∀ query : Query A p, o.view.Keeping query { memo := o.memo, log := s.log } ∧
      (query.tiled = true ∨ o.view.Plain →
        (o.view.ask query { memo := o.memo, log := s.log }).2.memo = o.memo ∧
          ∃ added, (o.view.ask query { memo := o.memo, log := s.log }).2.log = s.log ++ added ∧
            Log.builds added = []) := by
  intro s
  have disciplined := run_disciplined v requests
  refine ⟨disciplined.first, fun o member => ?_⟩
  have valid := disciplined.valid o member
  refine ⟨⟨valid, o.view.ask_kernel valid⟩, fun query =>
    ⟨o.view.keeping query valid, fun unbuilt => ?_⟩⟩
  exact o.view.ask_unbuilt valid unbuilt

section Examples

/-- Two pixels filtered twice. -/
def twiceFiltered : View .standard PixelKind.i32 :=
  .separable (A := .standard) (p := PixelKind.i32) (k := CoeffKind.i32)
    (.separable (A := .standard) (p := PixelKind.u8) (k := CoeffKind.i32)
      (.image (A := .standard) (p := PixelKind.u8)
        { cols := 2, rows := 1, planes := 1, cells := (#[5, 6] : Array UInt8), size_cells := rfl }
        .given) PixelKind.product_u8 ([5, 6] : List Int32) []
      { col := 0, row := 0, col_lt := by decide, row_lt := by decide } .reflect)
    rfl ([1, 1] : List Int32) ([5] : List Int32)
    { col := 0, row := 0, col_lt := by decide, row_lt := by decide } .zero

/-- Boxes and points in turn. -/
def mixedRequests : List (Nat × Query .standard PixelKind.i32) :=
  [(0, .toImage), (0, .kernel), (0, .get 1 0 0), (0, .prerasterize { width := 1, height := 1 }),
    (1, .get 0 0 0), (0, .get 0 0 0)]

/-- Which of the two kernels are kept, that of the outer filter first. -/
def slots (memo : twiceFiltered.Memo) : Bool × Bool := (memo.1.isSome, memo.2.1.isSome)

/-- Each of the two kernels is built once, and none for an image. A pixel inside goes through both
filters; the kernel of the outer filter, and a pixel of its border, through that filter alone. -/
theorem twiceFiltered_builds_two :
    let s := (start twiceFiltered).run mixedRequests
    (∃ memo others, s.opened = { view := twiceFiltered, memo } :: others ∧
      (Log.builds s.log).Perm (twiceFiltered.cache.missing twiceFiltered.cache.empty memo) ∧
      (Log.builds s.log).length = 2) ∧
    (s.opened.length = 2 ∧ ∀ o ∈ s.opened,
      (o.view.ask .toImage { memo := o.memo, log := s.log }).2.memo = o.memo) ∧
    slots (twiceFiltered.askFresh (.get 1 0 0)).2.memo = (true, true) ∧
    slots (twiceFiltered.askFresh (.get 9 0 0)).2.memo = (true, false) ∧
    slots (twiceFiltered.askFresh .kernel).2.memo = (true, false) ∧
    (twiceFiltered.askFresh .kernel).1 = .kernel twiceFiltered.dense? := by
  intro s
  obtain ⟨⟨memo, others, opened, -, built⟩, all⟩ := kernels_built_once twiceFiltered mixedRequests
  have buildable : twiceFiltered.cache.Buildable := ⟨⟨_, rfl⟩, ⟨_, rfl⟩, trivial⟩
  refine ⟨⟨memo, others, opened, built buildable, by decide +kernel⟩, ⟨by decide +kernel, ?_⟩, ?_⟩
  · intro o member
    obtain ⟨-, unbuilt⟩ := (all o member).2 .toImage
    exact (unbuilt (.inl rfl)).1
  · obtain ⟨⟨-, kernel⟩, asked⟩ :=
      (kernels_built_once twiceFiltered []).2 (.fresh twiceFiltered) (List.mem_singleton.2 rfl)
    have reached (query : Query .standard PixelKind.i32) :
        (twiceFiltered.askFresh query).2.memo = twiceFiltered.reached query :=
      (asked query).1.reached
    rw [reached, reached, reached]
    exact ⟨by decide +kernel, by decide +kernel, by decide +kernel, kernel⟩

end Examples

end Session

end ImageViews
