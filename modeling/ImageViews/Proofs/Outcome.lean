import ImageViews.Render

/-!
# Outcomes of evaluations

An evaluation is judged by its outcome: a value with the property asked for, or a fault that the
caller tolerates. With no fault tolerated the judgement says that the evaluation succeeds, with
every fault tolerated it speaks of successful evaluations only, so one proof serves both readings.
Being refused is never tolerated.
-/
namespace ImageViews

variable {α β σ ε : Type}

/-- The check gives a value with the property `Q`, or faults in a tolerated way. -/
def Check.Yields (E : Fault → Prop) (check : Check α) (Q : α → Prop) : Prop :=
  match check with
  | .ok a => Q a
  | .error fault => E fault

/-- The check faults in tolerated ways only. -/
def Check.Tolerable (E : Fault → Prop) (check : Check α) : Prop :=
  ∀ fault, check = .error fault → E fault

/-- The evaluation from the state `s` gives a value and a state with the property `Q`, or fails in
a tolerated way. -/
def Yields (E : ε → Prop) (m : ExceptT ε (StateM σ) α) (s : σ) (Q : α → σ → Prop) : Prop :=
  match m.run.run s with
  | (.ok a, s') => Q a s'
  | (.error cause, _) => E cause

/-- Tolerating faults does not tolerate refusals. -/
def Failure.Tolerated (E : Fault → Prop) : Failure → Prop
  | .error _ => False
  | .fault cause => E cause

/-- No fault is tolerated. -/
def Strict (_ : Fault) : Prop := False

theorem Failure.not_tolerated : ∀ cause, ¬Failure.Tolerated Strict cause
  | .error _ => id
  | .fault _ => id

/-- Every fault is tolerated. -/
def Tolerant (E : Fault → Prop) : Prop := ∀ fault, E fault

/-- The least demand on evaluations, that successful ones be right. -/
def Lenient (_ : Fault) : Prop := True

theorem Lenient.tolerant : Tolerant Lenient := fun _ => trivial

@[simp] theorem Check.ok_bind (a : α) (f : α → Check β) : (Except.ok a >>= f) = f a := rfl

@[simp] theorem Check.error_bind (fault : Fault) (f : α → Check β) :
    (Except.error fault >>= f) = .error fault := rfl

theorem Check.bind_eq_ok {check : Check α} {f : α → Check β} {b : β} :
    (check >>= f) = .ok b ↔ ∃ a, check = .ok a ∧ f a = .ok b := by
  cases check with
  | ok a => simp
  | error fault => simp

theorem Check.Tolerable.of_bind {E : Fault → Prop} {check : Check α} {f : α → Check β}
    (h : (check >>= f).Tolerable E) : check.Tolerable E := by
  rintro fault rfl
  exact h fault rfl

theorem Check.Tolerable.ok {E : Fault → Prop} (a : α) : Check.Tolerable E (.ok a) :=
  fun _ h => nomatch h

theorem Check.Tolerable.bind {E : Fault → Prop} {check : Check α} {f : α → Check β}
    (h : check.Tolerable E) (hf : ∀ a, check = .ok a → (f a).Tolerable E) :
    (check >>= f).Tolerable E := by
  cases check with
  | ok a => exact hf a rfl
  | error cause => exact fun fault raised => h fault (congrArg _ (Except.error.inj raised))

theorem Check.Tolerable.succeeds {check : Check α} (h : check.Tolerable Strict) :
    ∃ a, check = .ok a := by
  cases check with
  | ok a => exact ⟨a, rfl⟩
  | error fault => exact (h fault rfl).elim

namespace Check.Yields

variable {E : Fault → Prop} {check : Check α} {Q R : α → Prop}

theorem ok {a : α} (h : Q a) : Check.Yields E (.ok a) Q := h

theorem mono (h : check.Yields E Q) (hQ : ∀ a, Q a → R a) : check.Yields E R := by
  cases check with
  | ok a => exact hQ a h
  | error fault => exact h

theorem bind {f : α → Check β} {R : β → Prop} (h : check.Yields E fun a => (f a).Yields E R) :
    Check.Yields E (check >>= f) R := by
  cases check with
  | ok a => exact h
  | error fault => exact h

theorem require {condition : Prop} [Decidable condition] {fault : Fault} {Q : Unit → Prop}
    (h : E fault ∨ condition) (hQ : condition → Q ()) :
    (Check.require condition fault).Yields E Q := by
  unfold Check.require
  split
  next hc => exact hQ hc
  next hc => exact h.resolve_right hc

theorem of_tolerable (h : check.Tolerable E) (hQ : ∀ a, check = .ok a → Q a) :
    check.Yields E Q := by
  cases check with
  | ok a => exact hQ a rfl
  | error fault => exact h fault rfl

/-- The value of a successful check. -/
theorem value {a : α} (h : check.Yields E Q) (ha : check = .ok a) : Q a := by
  subst ha
  exact h

theorem tolerable (h : check.Yields E Q) : check.Tolerable E := by
  rintro fault rfl
  exact h

/-- A check that gives nothing but `a`. -/
theorem eq_ok {a : α} (h : check.Yields Strict (· = a)) : check = .ok a := by
  obtain ⟨b, rfl⟩ := h.tolerable.succeeds
  exact congrArg _ h

end Check.Yields

theorem run_bind (m : ExceptT ε (StateM σ) α) (f : α → ExceptT ε (StateM σ) β) (s : σ) :
    (m >>= f).run.run s =
      match m.run.run s with
      | (.ok a, s') => (f a).run.run s'
      | (.error cause, s') => (.error cause, s') := by
  change (match m.run.run s with
    | (result, s') => (ExceptT.bindCont f result).run s') = _
  rcases m.run.run s with ⟨_ | a, s'⟩ <;> rfl

/-- The parts of an outcome that was computed. -/
theorem exists_of_isOk {outcome : Except ε α × σ} (h : outcome.1.isOk = true) :
    ∃ a s, outcome = (.ok a, s) ∧ outcome.2 = s := by
  rcases outcome with ⟨_ | a, s⟩
  · cases h
  · exact ⟨a, s, rfl, rfl⟩

namespace Yields

variable {E : ε → Prop} {m : ExceptT ε (StateM σ) α} {s : σ} {Q R : α → σ → Prop}

theorem pure {a : α} (h : Q a s) : Yields E (pure a : ExceptT ε (StateM σ) α) s Q := h

theorem get {Q : σ → σ → Prop} (h : Q s s) :
    Yields E (MonadState.get : ExceptT ε (StateM σ) σ) s Q := h

theorem modify {f : σ → σ} {Q : Unit → σ → Prop} (h : Q () (f s)) :
    Yields E (modify f : ExceptT ε (StateM σ) Unit) s Q := h

theorem mono (h : Yields E m s Q) (hQ : ∀ a s', Q a s' → R a s') : Yields E m s R := by
  unfold Yields at h ⊢
  rcases hm : m.run.run s with ⟨_ | a, s'⟩ <;> rw [hm] at h
  · exact h
  · exact hQ a s' h

theorem bind {f : α → ExceptT ε (StateM σ) β} {R : β → σ → Prop}
    (h : Yields E m s fun a s' => Yields E (f a) s' R) : Yields E (m >>= f) s R := by
  unfold Yields at h ⊢
  rw [run_bind]
  rcases hm : m.run.run s with ⟨_ | a, s'⟩ <;> rw [hm] at h
  · exact h
  · exact h

/-- More failures may be tolerated. -/
theorem weaken {E' : ε → Prop} (h : Yields E m s Q) (hE : ∀ cause, E cause → E' cause) :
    Yields E' m s Q := by
  unfold Yields at h ⊢
  rcases hm : m.run.run s with ⟨cause | a, s'⟩ <;> rw [hm] at h
  · exact hE cause h
  · exact h

/-- The value and the state of a successful evaluation. -/
theorem value {a : α} {s' : σ} (h : Yields E m s Q) (hm : m.run.run s = (.ok a, s')) :
    Q a s' := by
  unfold Yields at h
  rwa [hm] at h

/-- A failure that is not tolerated does not happen. -/
theorem ne_error {cause : ε} (h : Yields E m s Q) (hE : ¬E cause) :
    (m.run.run s).1 ≠ .error cause := by
  intro failed
  unfold Yields at h
  rcases hm : m.run.run s with ⟨result, s'⟩
  rw [hm] at h failed
  subst failed
  exact hE h

/-- With nothing tolerated the evaluation succeeds. -/
theorem succeeds (h : Yields E m s Q) (hE : ∀ cause, ¬E cause) :
    ∃ a s', m.run.run s = (.ok a, s') ∧ Q a s' := by
  unfold Yields at h
  rcases hm : m.run.run s with ⟨cause | a, s'⟩ <;> rw [hm] at h
  · exact absurd h (hE cause)
  · exact ⟨a, s', rfl, h⟩

end Yields

section Lifting

variable {E : Fault → Prop} {c : Check α} {n : Nat} {γ : Type}

theorem Yields.probe_check {s : σ} {Q : α → σ → Prop} (h : c.Yields E (Q · s)) :
    Yields E (liftM c : Probe σ α) s Q := by
  cases c with
  | ok a => exact h
  | error fault => exact h

theorem Yields.check {s : σ} {Q : α → σ → Prop} (h : c.Yields E (Q · s)) :
    Yields (Failure.Tolerated E) (liftM c : ExceptT Failure (StateM σ) α) s Q := by
  cases c with
  | ok a => exact h
  | error fault => exact h

theorem run_probe (probe : Probe σ α) (cells : Vector γ n) (s : σ) :
    (liftM probe : Paint σ γ n α).run.run (cells, s) =
      ((probe.run.run s).1.mapError .fault, (cells, (probe.run.run s).2)) := rfl

theorem run_render (render : Render α) (cells : Vector γ n) (log : Log) :
    (liftM render : Paint Log γ n α).run.run (cells, log) =
      ((render.run.run log).1, (cells, (render.run.run log).2)) := rfl

theorem run_onto (paint : Paint Log γ n Unit) (cells : Vector γ n) (log : Log) :
    (paint.onto cells).run.run log =
      ((paint.run.run (cells, log)).1.map fun _ => (paint.run.run (cells, log)).2.1,
        (paint.run.run (cells, log)).2.2) := rfl

/-- Probing while painting leaves the cells alone. -/
theorem Yields.probe {probe : Probe σ α} {cells : Vector γ n} {s : σ}
    {Q : α → Vector γ n × σ → Prop} (h : Yields E probe s fun a s' => Q a (cells, s')) :
    Yields (Failure.Tolerated E) (liftM probe : Paint σ γ n α) (cells, s) Q := by
  unfold Yields at h ⊢
  rw [run_probe]
  rcases hr : probe.run.run s with ⟨_ | a, s'⟩ <;> rw [hr] at h
  · exact h
  · exact h

/-- Rendering while painting leaves the cells alone. -/
theorem Yields.render {render : Render α} {cells : Vector γ n} {log : Log}
    {E : Failure → Prop} {Q : α → Vector γ n × Log → Prop}
    (h : Yields E render log fun a log' => Q a (cells, log')) :
    Yields E (liftM render : Paint Log γ n α) (cells, log) Q := by
  unfold Yields at h ⊢
  rw [run_render]
  rcases hr : render.run.run log with ⟨_ | a, s'⟩ <;> rw [hr] at h
  · exact h
  · exact h

theorem Yields.onto {paint : Paint Log γ n Unit} {cells : Vector γ n} {log : Log}
    {E : Failure → Prop} {Q : Vector γ n → Log → Prop}
    (h : Yields E paint (cells, log) fun _ s' => Q s'.1 s'.2) :
    Yields E (paint.onto cells) log Q := by
  unfold Yields at h ⊢
  rw [run_onto]
  rcases hr : paint.run.run (cells, log) with ⟨_ | a, s'⟩ <;> rw [hr] at h
  · exact h
  · exact h

end Lifting

section Sweeping

variable {π : Type} {step : π → Check π} {E : ε → Prop}
  [MonadLiftT Check (ExceptT ε (StateM σ))]

/-- What each visit carries from one count to the next holds after the last visit. -/
theorem sweep_yields {visit : Nat → π → β → ExceptT ε (StateM σ) β} (place : Nat → π)
    {P : Nat → β → σ → Prop} {n i : Nat} {acc : β} {s : σ}
    (hvisit : ∀ j, i ≤ j → j < i + n → ∀ acc s, P j acc s →
      Yields E (visit j (place j) acc) s (P (j + 1)))
    (hstep : ∀ j, i ≤ j → j < i + n → ∀ s (Q : π → σ → Prop), Q (place (j + 1)) s →
      Yields E (liftM (step (place j)) : ExceptT ε (StateM σ) π) s Q)
    (h : P i acc s) :
    Yields E (sweep step visit n i (place i) acc) s (P (i + n)) := by
  induction n generalizing i acc s with
  | zero => exact Yields.pure h
  | succ n ih =>
    apply Yields.bind
    apply (hvisit i (Nat.le_refl _) (by omega) acc s h).mono
    intro acc' s' h'
    refine Yields.bind (hstep i (Nat.le_refl _) (by omega) s' _ ?_)
    have rest := ih (fun j hj hj' => hvisit j (by omega) (by omega))
      (fun j hj hj' => hstep j (by omega) (by omega)) h'
    rwa [Nat.add_right_comm, Nat.add_assoc] at rest

end Sweeping

end ImageViews
