import LinearProgram.Error

namespace LinearProgram.Outcome

variable {ε α β : Type}

@[simp]
theorem bind_ok (a : α) (f : α → Except ε β) : (Except.ok a >>= f) = f a := rfl

@[simp]
theorem bind_error (e : ε) (f : α → Except ε β) :
    ((Except.error e : Except ε α) >>= f) = .error e := rfl

@[simp]
theorem pure_eq_ok (a : α) : (pure a : Except ε α) = .ok a := rfl

theorem bind_eq_ok {x : Except ε α} {f : α → Except ε β} {b : β} :
    (x >>= f) = .ok b ↔ ∃ a, x = .ok a ∧ f a = .ok b := by
  cases x <;> simp

theorem seq_eq_ok {x : Except ε Unit} {f : Unit → Except ε β} {b : β} :
    (x >>= f) = .ok b ↔ x = .ok () ∧ f () = .ok b := by
  cases x <;> simp

theorem exists_ok_of_any {x : Except ε α} {test : α → Bool} (h : x.toOption.any test = true) :
    ∃ a, x = .ok a ∧ test a = true := by
  cases x with
  | ok a => exact ⟨a, rfl, h⟩
  | error e => cases h

theorem mapM_eq_ok {f : α → Except ε β} {g : α → β} {l : List α} (h : ∀ a ∈ l, f a = .ok (g a)) :
    l.mapM f = .ok (l.map g) := by
  induction l with
  | nil => rfl
  | cons a l ih =>
    simp [h a (by simp), ih fun b hb => h b (List.mem_cons_of_mem _ hb)]

theorem mapM_eq_ok_iff {f : α → Except ε β} {P : α → Prop} {g : α → β}
    (h : ∀ a b, f a = .ok b ↔ P a ∧ b = g a) {l : List α} {bs : List β} :
    l.mapM f = .ok bs ↔ (∀ a ∈ l, P a) ∧ bs = l.map g := by
  induction l generalizing bs with
  | nil => simp [eq_comm]
  | cons a l ih =>
    simp only [List.mapM_cons, bind_eq_ok, h, ih, pure_eq_ok, Except.ok.injEq, List.forall_mem_cons,
      List.map_cons]
    constructor
    · rintro ⟨_, ⟨ha, rfl⟩, _, ⟨hl, rfl⟩, rfl⟩
      exact ⟨⟨ha, hl⟩, rfl⟩
    · rintro ⟨⟨ha, hl⟩, rfl⟩
      exact ⟨_, ⟨ha, rfl⟩, _, ⟨hl, rfl⟩, rfl⟩

theorem mapM_eq_ok_of_getElem? {f : α → Except ε β} {l : List α} {m : List β}
    (hlen : l.length = m.length)
    (h : ∀ (i : Nat) a b, l[i]? = some a → m[i]? = some b → f a = .ok b) : l.mapM f = .ok m := by
  induction l generalizing m with
  | nil =>
    cases m with
    | nil => rfl
    | cons b m => simp at hlen
  | cons a l ih =>
    cases m with
    | nil => simp at hlen
    | cons b m =>
      have ha : f a = .ok b := h 0 a b rfl rfl
      have hl : l.mapM f = .ok m := ih (by simpa using hlen) fun i c d hc hd =>
        h (i + 1) c d (by simpa using hc) (by simpa using hd)
      simp [ha, hl]

theorem error_of_mapM {f : α → Except ε β} {l : List α} {e : ε} (h : l.mapM f = .error e) :
    ∃ a ∈ l, f a = .error e := by
  induction l with
  | nil => cases h
  | cons a l ih =>
    rw [List.mapM_cons] at h
    cases ha : f a with
    | error e' =>
      rw [ha] at h
      cases h
      exact ⟨a, List.mem_cons_self, ha⟩
    | ok b =>
      rw [ha, bind_ok] at h
      cases hl : l.mapM f with
      | error e' =>
        rw [hl] at h
        cases h
        obtain ⟨c, hc, he⟩ := ih hl
        exact ⟨c, List.mem_cons_of_mem a hc, he⟩
      | ok bs =>
        rw [hl] at h
        cases h

theorem forM_eq_ok_iff {f : α → Except ε Unit} {l : List α} :
    l.forM f = .ok () ↔ ∀ a ∈ l, f a = .ok () := by
  induction l with
  | nil => exact ⟨fun _ _ h => by simp at h, fun _ => rfl⟩
  | cons a l ih =>
    have hc : (a :: l).forM f = (f a >>= fun _ => l.forM f) := rfl
    rw [hc, bind_eq_ok, List.forall_mem_cons, ← ih]
    exact ⟨fun ⟨_, ha, hl⟩ => ⟨ha, hl⟩, fun ⟨ha, hl⟩ => ⟨(), ha, hl⟩⟩

section Optional

variable {rel : α → β → Prop} {x : Option α} {y : Option β}

theorem rel_mono {wider : α → β → Prop} (h : Option.Rel rel x y)
    (hw : ∀ a b, rel a b → wider a b) : Option.Rel wider x y := by
  cases h with
  | none => exact .none
  | some h => exact .some (hw _ _ h)

theorem rel_map {γ : Type} {rel' : α → γ → Prop} {f : β → γ} (h : Option.Rel rel x y)
    (hf : ∀ a b, rel a b → rel' a (f b)) : Option.Rel rel' x (y.map f) := by
  cases h with
  | none => exact .none
  | some h => exact .some (hf _ _ h)

end Optional

section Unbroken

variable {x : Outcome α} {f : α → Outcome β}

/-- There is a result, or the caller is refused one. -/
def Unbroken (x : Outcome α) : Prop := ∀ defect, x ≠ .error (.broken defect)

theorem unbroken_ok (a : α) : Unbroken (.ok a) := fun _ h => nomatch h

theorem unbroken_refused (e : Error) : Unbroken (.error (.refused e) : Outcome α) := by
  intro defect h
  cases h

namespace Unbroken

theorem cases (h : Unbroken x) : (∃ a, x = .ok a) ∨ ∃ e, x = .error (.refused e) := by
  match x with
  | .ok a => exact .inl ⟨a, rfl⟩
  | .error (.refused e) => exact .inr ⟨e, rfl⟩
  | .error (.broken defect) => exact absurd rfl (h defect)

theorem bind (hx : Unbroken x) (hf : ∀ a, x = .ok a → Unbroken (f a)) : Unbroken (x >>= f) := by
  obtain ⟨a, rfl⟩ | ⟨e, rfl⟩ := hx.cases
  · exact hf a rfl
  · exact unbroken_refused e

theorem mapM {l : List α} (hf : ∀ a ∈ l, Unbroken (f a)) : Unbroken (l.mapM f) := by
  induction l with
  | nil => exact unbroken_ok _
  | cons a l ih =>
    rw [List.mapM_cons]
    rw [List.forall_mem_cons] at hf
    refine bind hf.1 fun b _ => bind (ih hf.2) ?_
    exact fun bs _ => unbroken_ok _

end Unbroken

end Unbroken

end LinearProgram.Outcome
