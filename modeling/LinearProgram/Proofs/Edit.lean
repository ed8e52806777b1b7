import LinearProgram.Problem.Basic

namespace LinearProgram.Edit

variable {ε σ α β : Type}

@[simp]
theorem bind_apply (x : EStateM ε σ α) (f : α → EStateM ε σ β) (s : σ) :
    (x >>= f) s = match x s with
      | .ok a t => f a t
      | .error e t => .error e t := rfl

@[simp]
theorem pure_apply (a : α) (s : σ) : (pure a : EStateM ε σ α) s = .ok a s := rfl

@[simp]
theorem get_apply (s : σ) : (get : EStateM ε σ σ) s = .ok s s := rfl

@[simp]
theorem set_apply (s t : σ) : (set t : EStateM ε σ PUnit) s = .ok ⟨⟩ t := rfl

@[simp]
theorem modify_apply (f : σ → σ) (s : σ) : (modify f : EStateM ε σ PUnit) s = .ok ⟨⟩ (f s) := rfl

@[simp]
theorem throw_apply (e : ε) (s : σ) : (throw e : EStateM ε σ α) s = .error e s := rfl

def final (x : EStateM ε σ α) (s : σ) : σ :=
  match x s with
  | .ok _ t => t
  | .error _ t => t

theorem final_ok {x : EStateM ε σ α} {s t : σ} {a : α} (h : x s = .ok a t) : final x s = t := by
  simp only [final, h]

theorem final_error {x : EStateM ε σ α} {s t : σ} {e : ε} (h : x s = .error e t) :
    final x s = t := by
  simp only [final, h]

def answer? (x : EStateM ε σ α) (s : σ) : Option α :=
  match x s with
  | .ok a _ => some a
  | .error _ _ => none

theorem ok_of_answer? {x : EStateM ε σ α} {s : σ} {a : α} (h : answer? x s = some a) :
    x s = .ok a (final x s) := by
  unfold answer? at h
  unfold final
  cases hx : x s with
  | ok b t =>
    rw [hx] at h
    cases h
    rfl
  | error e t =>
    rw [hx] at h
    cases h

theorem error_of_answer? {x : EStateM ε σ α} {s : σ} (h : (answer? x s).isNone = true) :
    ∃ e t, x s = .error e t := by
  unfold answer? at h
  cases hx : x s with
  | ok a t =>
    rw [hx] at h
    cases h
  | error e t => exact ⟨e, t, rfl⟩

def outcome (x : EStateM ε σ α) (s : σ) : Except ε α :=
  match x s with
  | .ok a _ => .ok a
  | .error e _ => .error e

theorem outcome_ok {x : EStateM ε σ α} {s t : σ} {a : α} (h : x s = .ok a t) :
    outcome x s = .ok a := by
  simp only [outcome, h]

theorem outcome_error {x : EStateM ε σ α} {s t : σ} {e : ε} (h : x s = .error e t) :
    outcome x s = .error e := by
  simp only [outcome, h]

theorem ok_of_outcome {x : EStateM ε σ α} {s : σ} {a : α} (h : outcome x s = .ok a) :
    x s = .ok a (final x s) := by
  cases hx : x s with
  | ok b t =>
    rw [outcome_ok hx] at h
    cases h
    rw [final_ok hx]
  | error e t =>
    rw [outcome_error hx] at h
    cases h

theorem error_of_outcome {x : EStateM ε σ α} {s : σ} {e : ε} (h : outcome x s = .error e) :
    x s = .error e (final x s) := by
  cases hx : x s with
  | ok b t =>
    rw [outcome_ok hx] at h
    cases h
  | error e t =>
    rw [outcome_error hx] at h
    cases h
    rw [final_error hx]

theorem outcome_bind_pure (x : EStateM ε σ α) (f : α → β) (s : σ) :
    outcome (x >>= fun a => pure (f a)) s = outcome x s >>= fun a => pure (f a) := by
  unfold outcome
  rw [bind_apply]
  cases x s <;> rfl

theorem final_bind_ok {x : EStateM ε σ α} {f : α → EStateM ε σ β} {s t : σ} {a : α}
    (h : x s = .ok a t) : final (x >>= f) s = final (f a) t := by
  simp only [final, bind_apply, h]

theorem final_bind_error {x : EStateM ε σ α} {f : α → EStateM ε σ β} {s t : σ} {e : ε}
    (h : x s = .error e t) : final (x >>= f) s = t := by
  simp only [final, bind_apply, h]

theorem final_bind_pure (x : EStateM ε σ α) (f : α → β) (s : σ) :
    final (x >>= fun a => pure (f a)) s = final x s := by
  cases h : x s with
  | ok a t => rw [final_bind_ok h, final_ok h, final_ok (pure_apply (f a) t)]
  | error e t => rw [final_bind_error h, final_error h]

def Keeps (P : σ → Prop) (x : EStateM ε σ α) : Prop := ∀ s, P s → P (final x s)

namespace Keeps

variable {P : σ → Prop}

theorem pure (a : α) : Keeps P (pure a : EStateM ε σ α) := fun _ h => h

theorem bind {x : EStateM ε σ α} {f : α → EStateM ε σ β} (hx : Keeps P x)
    (hf : ∀ a, Keeps P (f a)) : Keeps P (x >>= f) := by
  intro s hs
  have hs' := hx s hs
  cases h : x s with
  | ok a t =>
    rw [final_ok h] at hs'
    rw [final_bind_ok h]
    exact hf a t hs'
  | error e t =>
    rw [final_error h] at hs'
    rw [final_bind_error h]
    exact hs'

theorem forM {f : α → EStateM ε σ PUnit} (hf : ∀ a, Keeps P (f a)) (l : List α) :
    Keeps P (l.forM f) := by
  induction l with
  | nil => exact pure _
  | cons a l ih => exact bind (hf a) fun _ => ih

theorem mapM {f : α → EStateM ε σ β} (hf : ∀ a, Keeps P (f a)) (l : List α) :
    Keeps P (l.mapM f) := by
  induction l with
  | nil => exact pure _
  | cons a l ih =>
    rw [List.mapM_cons]
    exact bind (hf a) fun b => bind ih fun bs => pure _

theorem modify {f : σ → σ} (hf : ∀ s, P s → P (f s)) :
    Keeps P (modify f : EStateM ε σ PUnit) := hf

end Keeps

end LinearProgram.Edit
