import ImageViews.Proofs.Outcome
import ImageViews.Sampler.Convolution
import ImageViews.Tiler.Basic

/-!
# Settled evaluations

An evaluation is settled when its result is the same in every state it may start in, and what it
does to the state is one fixed change of an allowed kind. Settled evaluations can be sequenced, so
whatever is made of settled samplers is settled.
-/
namespace ImageViews

/-- The states that evaluations may start in, and the changes that they may make. -/
structure Regime (σ : Type) where
  Good : σ → Prop
  Allowed : (σ → σ) → Prop
  allowed_id : Allowed id
  allowed_comp : ∀ {f g}, Allowed f → Allowed g → Allowed (g ∘ f)
  good : ∀ {f s}, Allowed f → Good s → Good (f s)

/-- While painting the cells may change in any way that does not depend on the rest. -/
def Regime.painting {σ : Type} (R : Regime σ) (α : Type) (n : Nat) : Regime (Vector α n × σ) where
  Good s := R.Good s.2
  Allowed f := ∃ g h, R.Allowed h ∧ f = Prod.map g h
  allowed_id := ⟨id, id, R.allowed_id, rfl⟩
  allowed_comp := by
    rintro _ _ ⟨g, h, allowed, rfl⟩ ⟨g', h', allowed', rfl⟩
    exact ⟨g' ∘ g, h' ∘ h, R.allowed_comp allowed allowed', Prod.map_comp_map g h g' h'⟩
  good := by
    rintro _ ⟨cells, s⟩ ⟨g, h, allowed, rfl⟩ good
    exact R.good allowed good

variable {σ α β γ ε : Type} {n : Nat} {R : Regime σ}

/-- The evaluation gives one result and makes one allowed change. -/
def Settles (R : Regime σ) (m : ExceptT ε (StateM σ) α) : Prop :=
  ∃ result change, R.Allowed change ∧ ∀ s, R.Good s → m.run.run s = (result, change s)

namespace Settles

theorem pure (a : α) : Settles R (pure a : ExceptT ε (StateM σ) α) :=
  ⟨.ok a, id, R.allowed_id, fun _ _ => rfl⟩

theorem bind {m : ExceptT ε (StateM σ) α} {f : α → ExceptT ε (StateM σ) β} (h : Settles R m)
    (hf : ∀ a, Settles R (f a)) : Settles R (m >>= f) := by
  obtain ⟨result, change, allowed, run⟩ := h
  cases result with
  | error cause =>
    refine ⟨.error cause, change, allowed, fun s good => ?_⟩
    rw [run_bind, run s good]
  | ok a =>
    obtain ⟨result', change', allowed', run'⟩ := hf a
    refine ⟨result', change' ∘ change, R.allowed_comp allowed allowed', fun s good => ?_⟩
    rw [run_bind, run s good]
    exact run' _ (R.good allowed good)

theorem check (c : Check α) : Settles R (liftM c : ExceptT Failure (StateM σ) α) :=
  ⟨c.mapError .fault, id, R.allowed_id, fun _ _ => by cases c <;> rfl⟩

theorem probe_check (c : Check α) : Settles R (liftM c : Probe σ α) :=
  ⟨c, id, R.allowed_id, fun _ _ => by cases c <;> rfl⟩

theorem accept (handle : Handle n) (box : Box) (planes : Nat) :
    Settles R (liftM (handle.accept box planes) : ExceptT Failure (StateM σ) Unit) :=
  ⟨(handle.accept box planes).mapError .error, id, R.allowed_id, fun _ _ => rfl⟩

/-- Probing while painting. -/
theorem probe {probe : Probe σ α} (h : Settles R probe) :
    Settles (R.painting γ n) (liftM probe : Paint σ γ n α) := by
  obtain ⟨result, change, allowed, run⟩ := h
  refine ⟨result.mapError .fault, Prod.map id change, ⟨id, change, allowed, rfl⟩, ?_⟩
  rintro ⟨cells, s⟩ good
  rw [run_probe, run s good]
  rfl

/-- Rendering while painting. -/
theorem render {R : Regime Log} {render : Render α} (h : Settles R render) :
    Settles (R.painting γ n) (liftM render : Paint Log γ n α) := by
  obtain ⟨result, change, allowed, run⟩ := h
  refine ⟨result, Prod.map id change, ⟨id, change, allowed, rfl⟩, ?_⟩
  rintro ⟨cells, s⟩ good
  rw [run_render, run s good]
  rfl

theorem onto {R : Regime Log} {paint : Paint Log γ n Unit} (h : Settles (R.painting γ n) paint)
    (cells : Vector γ n) : Settles R (paint.onto cells) := by
  obtain ⟨result, _, ⟨paints, change, allowed, rfl⟩, run⟩ := h
  refine ⟨result.map fun _ => paints cells, change, allowed, fun log good => ?_⟩
  rw [run_onto, run (cells, log) good]
  rfl

theorem sweep {π : Type} [MonadLiftT Check (ExceptT ε (StateM σ))] {step : π → Check π}
    {visit : Nat → π → β → ExceptT ε (StateM σ) β}
    (hvisit : ∀ i place acc, Settles R (visit i place acc))
    (hstep : ∀ place, Settles R (liftM (step place) : ExceptT ε (StateM σ) π)) (k i : Nat)
    (place : π) (acc : β) : Settles R (ImageViews.sweep step visit k i place acc) := by
  induction k generalizing i place acc with
  | zero => exact pure acc
  | succ k ih =>
    apply bind (hvisit i place acc)
    intro acc'
    apply bind (hstep place)
    intro place'
    exact ih (i + 1) place' acc'

end Settles

namespace Handle

theorem set_settles (handle : Handle n) (x y p : Nat) (value : α) :
    Settles (R.painting α n) (handle.set x y p value : Paint σ α n Unit) := by
  apply Settles.bind (.check (handle.cell x y p))
  intro cell
  exact ⟨.ok (), Prod.map (·.set cell value) id, ⟨_, _, R.allowed_id, rfl⟩, fun _ _ => rfl⟩

theorem fill_settles (handle : Handle n) {addressing : Addressing} (start : addressing.Place)
    {value : addressing.Place → Probe σ α} (h : ∀ place, Settles R (value place)) :
    Settles (R.painting α n) (handle.fill addressing start value) := by
  refine .sweep (fun y place _ => ?_) (fun _ => .check _) _ _ _ _
  refine .sweep (fun x place _ => ?_) (fun _ => .check _) _ _ _ _
  refine .sweep (fun p place _ => ?_) (fun _ => .check _) _ _ _ _
  apply Settles.bind (.probe (h place))
  intro a
  exact handle.set_settles x y p a

end Handle

namespace Sampler

/-- Every pixel is evaluated alike in all states. -/
structure Settled (R : Regime σ) (s : Sampler σ α) : Prop where
  get : ∀ x y p, Settles R (s.get x y p)
  read : ∀ place, Settles R (s.read place)

variable {s : Sampler σ α}

theorem computed_settled {cols rows planes : Nat} {get : Int → Int → Nat → Probe σ α}
    (h : ∀ x y p, Settles R (get x y p)) : (computed cols rows planes get).Settled R :=
  ⟨h, fun place : Position => h place.x place.y (Extent.ofCoordinate place.p)⟩

theorem strided_settled (grid : Strided α) : (strided grid : Sampler σ α).Settled R :=
  ⟨fun x y p => .probe_check (grid.get x y p), fun offset : Int => .probe_check (grid.read offset)⟩

theorem image_settled (image : Image α) : (Sampler.image image : Sampler σ α).Settled R :=
  ⟨fun _ _ _ => .probe_check _, fun _ => .probe_check _⟩

theorem Settled.crop (h : s.Settled R) (x0 y0 : Int) (cols rows : Nat) :
    (s.crop x0 y0 cols rows).Settled R := by
  refine ⟨fun x y p => ?_, h.read⟩
  apply Settles.bind (.probe_check _)
  intro x
  apply Settles.bind (.probe_check _)
  intro y
  exact h.get x y p

theorem Settled.pixel (h : s.Settled R) (border : Border) (blank : α) (x y : Int) (p : Nat) :
    Settles R (border.pixel s blank x y p) := by
  unfold Border.pixel
  split
  · exact h.get x y p
  split
  · exact .pure blank
  apply Settles.bind (.probe_check _)
  intro column
  apply Settles.bind (.probe_check _)
  intro row
  exact h.get _ _ p

theorem Settled.extend (h : s.Settled R) (border : Border) (blank : α) :
    (s.extend border blank).Settled R :=
  computed_settled (h.pixel border blank)

theorem Settled.paint (h : s.Settled R) (handle : Handle n) (box : Box) :
    Settles (R.painting α n) (s.paint handle box) := by
  apply Settles.bind (.accept handle box s.planes)
  intro _
  apply Settles.bind (.check _)
  intro start
  exact handle.fill_settles start h.read

section Filters

variable {A : Arithmetic} {p : A.Pixel} {k : A.Coeff} {q : A.Pixel} {s : Sampler σ (A.Value p)}

theorem Settled.correlateRow (h : s.Settled R) (hq : A.product p k = some q)
    (factor : List (A.Factor k)) (place : s.addressing.Place) (sum : A.Value q) :
    Settles R (s.correlateRow hq factor place sum) := by
  induction factor generalizing place sum with
  | nil => exact .pure sum
  | cons coeff coeffs ih =>
    apply Settles.bind (h.read place)
    intro pixel
    apply Settles.bind (.probe_check _)
    intro product
    apply Settles.bind (.probe_check _)
    intro sum
    apply Settles.bind (.probe_check _)
    intro place
    exact ih place sum

theorem Settled.correlate2d (h : s.Settled R) (hq : A.product p k = some q)
    (kernel : Kernel (A.Factor k)) (orientation : Orientation) (place : s.addressing.Place) :
    Settles R (s.correlate2d hq kernel orientation place) := by
  refine .sweep (fun _ place sum => ?_) (fun _ => .probe_check _) _ _ _ _
  refine .sweep (fun _ place sum => ?_) (fun _ => .probe_check _) _ _ _ _
  apply Settles.bind (h.read place.1)
  intro pixel
  apply Settles.bind (.probe_check _)
  intro coeff
  apply Settles.bind (.probe_check _)
  intro product
  exact .probe_check _

theorem Settled.correlateWindow (h : s.Settled R) (hq : A.product p k = some q)
    (kernel : Kernel (A.Factor k)) (before : Int × Int) (x y : Int) (plane : Nat) :
    Settles R (s.correlateWindow hq kernel before x y plane) := by
  apply Settles.bind (.probe_check _)
  intro left
  apply Settles.bind (.probe_check _)
  intro top
  apply Settles.bind (.probe_check _)
  intro place
  exact h.correlate2d hq kernel .rotated place

theorem Settled.convolveAt (h : s.Settled R) (hq : A.product p k = some q)
    (kernel : Kernel (A.Factor k)) {cols rows : Nat} (anchor : Anchor cols rows)
    (border : Option Border) (x y : Int) (plane : Nat) :
    Settles R (s.convolveAt hq kernel anchor border x y plane) := by
  apply Settles.bind (.probe_check _)
  intro inside
  cases border with
  | none => exact h.correlateWindow hq kernel _ x y plane
  | some border =>
    cases inside with
    | false => exact (h.extend border (A.blank p)).correlateWindow hq kernel _ x y plane
    | true => exact h.correlateWindow hq kernel _ x y plane

theorem Settled.convolve (h : s.Settled R) (hq : A.product p k = some q)
    (kernel : Kernel (A.Factor k)) (anchor : Anchor kernel.cols kernel.rows)
    (border : Option Border) : (s.convolve hq kernel anchor border).Settled R :=
  computed_settled (h.convolveAt hq kernel anchor border)

end Filters

end Sampler

end ImageViews
