import ImageViews.Proofs.Outcome

/-!
# Evaluations that carry over

Two evaluations are compared step by step. The first carries over to the second when every value of
the first comes with a related value of the second, and every fault of the first is either excused
or also the fault of the second; but for what is excused, related states are left behind. The second
may stand still while the first takes a step.
-/
namespace ImageViews

variable {α β γ δ σ τ ε : Type} {n m : Nat}

/-- A value of the first check comes with a related one of the second; a fault is excused or
shared. -/
def Check.Carries (T : Fault → Prop) (c : Check α) (c' : Check β) (Q : α → β → Prop) : Prop :=
  match c with
  | .ok a => ∃ b, c' = .ok b ∧ Q a b
  | .error fault => T fault ∨ c' = .error fault

/-- From related states a value of the first evaluation comes with a related one of the second, and
a failure is excused or shared, in related states. -/
def Carries (S : σ → τ → Prop) (E : ε → Prop) (e : ExceptT ε (StateM σ) α)
    (e' : ExceptT ε (StateM τ) β) (Q : α → β → Prop) : Prop :=
  ∀ s t, S s t → match e.run.run s with
    | (.ok a, s') => ∃ b t', e'.run.run t = (.ok b, t') ∧ Q a b ∧ S s' t'
    | (.error cause, s') => E cause ∨ ∃ t', e'.run.run t = (.error cause, t') ∧ S s' t'

/-- Refusals are excused where everything is. -/
def Failure.Excused (T : Fault → Prop) : Failure → Prop
  | .error _ => Tolerant T
  | .fault cause => T cause

/-- Both parts are related. -/
def Both (C : γ → δ → Prop) (S : σ → τ → Prop) (s : γ × σ) (t : δ × τ) : Prop :=
  C s.1 t.1 ∧ S s.2 t.2

namespace Check.Carries

variable {T : Fault → Prop} {c : Check α} {c' : Check β} {Q R : α → β → Prop}

theorem ok {a : α} {b : β} (h : Q a b) : Check.Carries T (.ok a) (.ok b) Q := ⟨b, rfl, h⟩

/-- A computation that is the same on both sides. -/
theorem same (c : Check α) : c.Carries T c Eq := by
  cases c with
  | ok a => exact ⟨a, rfl, rfl⟩
  | error fault => exact .inr rfl

theorem mono (h : c.Carries T c' Q) (hQ : ∀ a b, c = .ok a → c' = .ok b → Q a b → R a b) :
    c.Carries T c' R := by
  cases c with
  | ok a =>
    obtain ⟨b, ok, related⟩ := h
    exact ⟨b, ok, hQ a b rfl ok related⟩
  | error fault => exact h

theorem bind {f : α → Check γ} {f' : β → Check δ} {R : γ → δ → Prop} (h : c.Carries T c' Q)
    (hf : ∀ a b, Q a b → (f a).Carries T (f' b) R) :
    Check.Carries T (c >>= f) (c' >>= f') R := by
  cases c with
  | ok a =>
    obtain ⟨b, rfl, related⟩ := h
    exact hf a b related
  | error fault =>
    rcases h with excused | rfl
    · exact .inl excused
    · exact .inr rfl

theorem require {condition condition' : Prop} [Decidable condition] [Decidable condition']
    {fault : Fault} (h : condition → condition') (hT : T fault ∨ (condition' → condition)) :
    (Check.require condition fault).Carries T (Check.require condition' fault)
      fun _ _ => condition ∧ condition' := by
  unfold Check.require
  by_cases holds : condition
  · rw [if_pos holds, if_pos (h holds)]
    exact ok ⟨holds, h holds⟩
  · rw [if_neg holds]
    exact hT.imp_right fun back => if_neg fun holds' => holds (back holds')

/-- Where every fault is excused only the values matter. -/
theorem of_tolerant (hT : Tolerant T) (h : ∀ a, c = .ok a → ∃ b, c' = .ok b ∧ Q a b) :
    c.Carries T c' Q := by
  cases c with
  | ok a => exact h a rfl
  | error fault => exact .inl (hT fault)

end Check.Carries

namespace Carries

variable {S : σ → τ → Prop} {E : ε → Prop} {e : ExceptT ε (StateM σ) α}
  {e' : ExceptT ε (StateM τ) β} {Q : α → β → Prop} {T : Fault → Prop}

theorem value (h : Carries S E e e' Q) {s s' : σ} {t : τ} (related : S s t) {a : α}
    (run : e.run.run s = (.ok a, s')) :
    ∃ b t', e'.run.run t = (.ok b, t') ∧ Q a b ∧ S s' t' := by
  have outcome := h s t related
  rwa [run] at outcome

theorem failure (h : Carries S E e e' Q) {s s' : σ} {t : τ} (related : S s t) {cause : ε}
    (run : e.run.run s = (.error cause, s')) : E cause ∨ (e'.run.run t).1 = .error cause := by
  have outcome := h s t related
  rw [run] at outcome
  apply outcome.imp_right
  rintro ⟨t', run', -⟩
  rw [run']

/-- Where nothing is excused the states stay related. -/
theorem states (h : Carries S E e e' Q) (hE : ∀ cause, ¬E cause) {s : σ} {t : τ}
    (related : S s t) : S (e.run.run s).2 (e'.run.run t).2 := by
  have outcome := h s t related
  rcases run : e.run.run s with ⟨cause | a, s'⟩ <;> rw [run] at outcome
  · obtain ⟨t', run', states⟩ := outcome.resolve_left (hE cause)
    rwa [run']
  · obtain ⟨b, t', run', -, states⟩ := outcome
    rwa [run']

theorem pure {a : α} {b : β} (h : Q a b) :
    Carries S E (pure a : ExceptT ε (StateM σ) α) (pure b : ExceptT ε (StateM τ) β) Q :=
  fun _ t related => ⟨b, t, rfl, h, related⟩

theorem bind {f : α → ExceptT ε (StateM σ) γ} {f' : β → ExceptT ε (StateM τ) δ}
    {R : γ → δ → Prop} (h : Carries S E e e' Q) (hf : ∀ a b, Q a b → Carries S E (f a) (f' b) R) :
    Carries S E (e >>= f) (e' >>= f') R := by
  intro s t related
  have outcome := h s t related
  rw [run_bind, run_bind]
  rcases run : e.run.run s with ⟨cause | a, s'⟩ <;> rw [run] at outcome
  · apply outcome.imp_right
    rintro ⟨t', run', states⟩
    rw [run']
    exact ⟨t', rfl, states⟩
  · obtain ⟨b, t', run', values, states⟩ := outcome
    rw [run']
    exact hf a b values s' t' states

/-- A step of the first evaluation while the second stands still. -/
theorem skip {f : α → ExceptT ε (StateM σ) γ} {e' : ExceptT ε (StateM τ) δ} {P : α → Prop}
    {R : γ → δ → Prop} (h : ∀ s t, S s t → Yields E e s fun a s' => P a ∧ S s' t)
    (hf : ∀ a, P a → Carries S E (f a) e' R) : Carries S E (e >>= f) e' R := by
  intro s t related
  have outcome := h s t related
  unfold Yields at outcome
  rw [run_bind]
  rcases run : e.run.run s with ⟨cause | a, s'⟩ <;> rw [run] at outcome
  · exact .inl outcome
  · exact hf a outcome.1 s' t outcome.2

/-- Where every failure is excused, an evaluation without values carries over to any other. -/
theorem of_fails (hE : ∀ cause, E cause)
    (h : ∀ s t, S s t → Yields (fun _ => True) e s fun _ _ => False) : Carries S E e e' Q := by
  intro s t related
  have outcome := h s t related
  unfold Yields at outcome
  rcases run : e.run.run s with ⟨cause | a, s'⟩ <;> rw [run] at outcome
  · exact .inl (hE cause)
  · exact outcome.elim

theorem check {c : Check α} {c' : Check β} (h : c.Carries T c' Q) :
    Carries S (Failure.Excused T) (liftM c : ExceptT Failure (StateM σ) α)
      (liftM c' : ExceptT Failure (StateM τ) β) Q := by
  intro s t related
  cases c with
  | ok a =>
    obtain ⟨b, rfl, values⟩ := h
    exact ⟨b, t, rfl, values, related⟩
  | error fault =>
    apply h.imp_right
    rintro rfl
    exact ⟨t, rfl, related⟩

theorem probe_check {c : Check α} {c' : Check β} (h : c.Carries T c' Q) :
    Carries S T (liftM c : Probe σ α) (liftM c' : Probe τ β) Q := by
  intro s t related
  cases c with
  | ok a =>
    obtain ⟨b, rfl, values⟩ := h
    exact ⟨b, t, rfl, values, related⟩
  | error fault =>
    apply h.imp_right
    rintro rfl
    exact ⟨t, rfl, related⟩

/-- Probing while painting. -/
theorem probe {probe : Probe σ α} {probe' : Probe τ β} (h : Carries S T probe probe' Q)
    (C : Vector γ n → Vector δ m → Prop) :
    Carries (Both C S) (Failure.Excused T) (liftM probe : Paint σ γ n α)
      (liftM probe' : Paint τ δ m β) Q := by
  rintro ⟨cells, s⟩ ⟨cells', t⟩ ⟨painted, related⟩
  have outcome := h s t related
  rw [run_probe, run_probe]
  rcases run : probe.run.run s with ⟨fault | a, s'⟩ <;> rw [run] at outcome
  · apply outcome.imp_right
    rintro ⟨t', run', states⟩
    rw [run']
    exact ⟨(cells', t'), rfl, painted, states⟩
  · obtain ⟨b, t', run', values, states⟩ := outcome
    rw [run']
    exact ⟨b, (cells', t'), rfl, values, painted, states⟩

/-- Rendering while painting. -/
theorem render {S : Log → Log → Prop} {E : Failure → Prop} {render : Render α} {render' : Render β}
    (h : Carries S E render render' Q) (C : Vector γ n → Vector δ m → Prop) :
    Carries (Both C S) E (liftM render : Paint Log γ n α) (liftM render' : Paint Log δ m β) Q := by
  rintro ⟨cells, s⟩ ⟨cells', t⟩ ⟨painted, related⟩
  have outcome := h s t related
  rw [run_render, run_render]
  rcases run : render.run.run s with ⟨cause | a, s'⟩ <;> rw [run] at outcome
  · apply outcome.imp_right
    rintro ⟨t', run', states⟩
    rw [run']
    exact ⟨(cells', t'), rfl, painted, states⟩
  · obtain ⟨b, t', run', values, states⟩ := outcome
    rw [run']
    exact ⟨b, (cells', t'), rfl, values, painted, states⟩

theorem onto {S : Log → Log → Prop} {E : Failure → Prop} {C : Vector γ n → Vector δ m → Prop}
    {paint : Paint Log γ n Unit} {paint' : Paint Log δ m Unit}
    (h : Carries (Both C S) E paint paint' fun _ _ => True) {cells : Vector γ n}
    {cells' : Vector δ m} (hcells : C cells cells') :
    Carries S E (paint.onto cells) (paint'.onto cells') C := by
  intro s t related
  have outcome := h (cells, s) (cells', t) ⟨hcells, related⟩
  rw [run_onto, run_onto]
  rcases run : paint.run.run (cells, s) with ⟨cause | a, painted, s'⟩ <;> rw [run] at outcome
  · apply outcome.imp_right
    rintro ⟨⟨painted', t'⟩, run', both⟩
    rw [run']
    exact ⟨t', rfl, both.2⟩
  · obtain ⟨_, ⟨painted', t'⟩, run', -, both⟩ := outcome
    rw [run']
    exact ⟨painted', t', rfl, both.1, both.2⟩

section Sweeping

variable {π π' : Type} {step : π → Check π} {step' : π' → Check π'}
  [MonadLiftT Check (ExceptT ε (StateM σ))] [MonadLiftT Check (ExceptT ε (StateM τ))]

/-- Two sweeps that keep pace. -/
theorem sweep {visit : Nat → π → α → ExceptT ε (StateM σ) α}
    {visit' : Nat → π' → β → ExceptT ε (StateM τ) β} {P : π → π' → Prop} {k i : Nat} {place : π}
    {place' : π'} {acc : α} {acc' : β}
    (hvisit : ∀ j, i ≤ j → j < i + k → ∀ place place' acc acc', P place place' → Q acc acc' →
      Carries S E (visit j place acc) (visit' j place' acc') Q)
    (hstep : ∀ place place', P place place' →
      Carries S E (liftM (step place) : ExceptT ε (StateM σ) π)
        (liftM (step' place') : ExceptT ε (StateM τ) π') P)
    (hplace : P place place') (hacc : Q acc acc') :
    Carries S E (ImageViews.sweep step visit k i place acc)
      (ImageViews.sweep step' visit' k i place' acc') Q := by
  induction k generalizing i place place' acc acc' with
  | zero => exact pure hacc
  | succ k ih =>
    apply bind (hvisit i (Nat.le_refl _) (by omega) place place' acc acc' hplace hacc)
    intro acc acc' hacc
    apply bind (hstep place place' hplace)
    intro place place' hplace
    exact ih (fun j hj hj' => hvisit j (by omega) (by omega)) hplace hacc

end Sweeping

end Carries

end ImageViews
