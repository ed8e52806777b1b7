import LinearProgram.Proofs.Problem.Frames
import LinearProgram.Proofs.Process.Ownership

namespace LinearProgram

namespace Operation

variable {op : Operation} {p : Problem} {kind : EntityKind} {h : Handle kind}

theorem mem_handles_after (hp : p.Consistent) (hcap : p.InCapacity)
    (hroom : (op.after p).InCapacity) (hh : h ∈ p.handles kind)
    (hr : op.removed? p ≠ some ⟨kind, h⟩) : h ∈ (op.after p).handles kind := by
  obtain ⟨g, hd, hg, hhandles⟩ | ⟨-, added, hhandles⟩ := op.handles_cases hp hcap hroom kind
  · have hne : h ≠ g := by
      rintro rfl
      exact hr ((removed?_eq_some_iff hp).mpr ⟨hd, hh⟩)
    rw [hhandles, ← List.erase_eq_eraseIdx_of_idxOf rfl]
    exact (List.mem_erase_of_ne hne).mpr hh
  · rw [hhandles]
    exact List.mem_append_left _ hh

theorem retired_after (hp : p.Consistent) (hr : op.removed? p = some ⟨kind, h⟩) :
    (op.after p).Retired 1 h := by
  obtain ⟨hd, hh⟩ := (removed?_eq_some_iff hp).mp hr
  exact (op.step_of_disposed hp hh hd).retires

end Operation

namespace Process

open Problem (Steps)

/-- From `w` the process has come to `w'`, and `new` has happened on the way. -/
inductive Later (w : Process) : Process → List Event → Prop
  | refl : Later w w []
  | step {w' : Process} {new : List Event} (h : Later w w' new) (a : Action)
    (hroom : ∀ p ∈ (w'.after a).problems, p.InCapacity) :
    Later w (w'.after a) (new ++ w'.events a)

structure Follows (new : List Event) (i : Nat) (p q : Problem) : Prop where
  reachable : q.Reachable
  steps : Steps (fun _ => True) p (disposals new i) q
  kept : ∀ kind (h : Handle kind), h ∈ p.handles kind → Event.disposed i kind h ∉ new →
    h ∈ q.handles kind
  retired : disposals new i < 2 ^ 32 → ∀ kind (h : Handle kind), Event.disposed i kind h ∈ new →
    q.Retired (disposals new i) h

variable {w w' : Process} {log new more : List Event} {i : Nat} {p q : Problem} {op : Operation}
  {kind : EntityKind} {h : Handle kind}

theorem problem_of_mem_events {e : Event} (he : e ∈ w.events (.operate i op)) : e.problem = i := by
  simp only [events] at he
  split at he
  · exact problem_of_mem_eventsOf he
  · cases he

theorem disposals_eq_zero (h : ∀ e ∈ new, e.problem ≠ i) : disposals new i = 0 := by
  rw [disposals, List.countP_eq_zero]
  intro e he
  cases e with
  | added j v => exact Bool.false_ne_true
  | disposed j kind g =>
    have hne : j ≠ i := h _ he
    simp [Event.isDisposal, hne.symm]

namespace Follows

theorem refl (hp : p.Reachable) : Follows [] i p p :=
  ⟨hp, .refl, fun _ _ hh _ => hh, fun _ _ _ hm => nomatch hm⟩

theorem other (hf : Follows new i p q) (hmore : ∀ e ∈ more, e.problem ≠ i) :
    Follows (new ++ more) i p q := by
  have hcount : disposals (new ++ more) i = disposals new i := by
    rw [disposals_append, disposals_eq_zero hmore, Nat.add_zero]
  have hmem (kind : EntityKind) (h : Handle kind) :
      Event.disposed i kind h ∈ new ++ more ↔ Event.disposed i kind h ∈ new := by
    rw [List.mem_append, or_iff_left]
    exact fun hm => hmore _ hm rfl
  refine ⟨hf.reachable, ?_, ?_, ?_⟩
  · rw [hcount]
    exact hf.steps
  · simp only [hmem]
    exact hf.kept
  · simp only [hmem, hcount]
    exact hf.retired

theorem operated (hf : Follows new i p q) (hroom : (op.after q).InCapacity) :
    Follows (new ++ eventsOf i op q) i p (op.after q) := by
  have hq := hf.reachable.consistent
  have hsteps := op.steps hq hf.reachable.inCapacity hroom
  have hcount : disposals (new ++ eventsOf i op q) i = disposals new i + op.disposals q := by
    rw [disposals_append, disposals_eventsOf]
  refine ⟨.step op hf.reachable hroom, ?_, fun kind h hh hm => ?_, fun hn kind h hm => ?_⟩
  · rw [hcount]
    exact hf.steps.trans (hsteps.mono fun _ _ => trivial)
  · rw [List.mem_append, not_or, mem_eventsOf_disposed] at hm
    exact op.mem_handles_after hq hf.reachable.inCapacity hroom (hf.kept kind h hh hm.1)
      fun hr => hm.2 ⟨rfl, hr⟩
  · rw [hcount] at hn ⊢
    rw [List.mem_append, mem_eventsOf_disposed] at hm
    obtain hm | ⟨-, hr⟩ := hm
    -- what had gone before stays gone, and what goes now is counted once
    · exact hsteps.retired hq (hf.retired (by omega) kind h hm) hn
    · have hone : op.disposals q = 1 := by
        rw [Operation.disposals_eq, hr]
        rfl
      exact (Operation.retired_after hq hr).mono (by omega)

end Follows

theorem reachable_after (hw : ∀ p ∈ w.problems, p.Reachable) {a : Action}
    (hroom : ∀ p ∈ (w.after a).problems, p.InCapacity) :
    ∀ p ∈ (w.after a).problems, p.Reachable := by
  intro p hp
  cases a with
  | create tableau =>
    change p ∈ (w.create tableau).problems at hp
    unfold create at hp
    split at hp
    · rename_i q hq
      rcases List.mem_append.mp hp with hp | hp
      · exact hw p hp
      · rw [List.mem_singleton.mp hp]
        exact .start hq
    · exact hw p hp
  | operate i op =>
    have hcap := hroom p hp
    obtain ⟨j, hj⟩ := List.mem_iff_getElem?.mp hp
    change (w.operate i op).problems[j]? = some p at hj
    rw [problems_operate, Option.map_eq_some_iff] at hj
    obtain ⟨q, hq, rfl⟩ := hj
    have hq' := hw q (List.mem_of_getElem? hq)
    split at hcap
    · rename_i hij
      rw [if_pos hij]
      exact .step op hq' hcap
    · rename_i hij
      rwa [if_neg hij]

theorem Run.reachable (h : Run w log) : ∀ p ∈ w.problems, p.Reachable := by
  induction h with
  | start => nofun
  | step _ a hroom ih => exact reachable_after ih hroom

theorem Run.later (h : Run w log) (hl : Later w w' new) : Run w' (log ++ new) := by
  induction hl with
  | refl =>
    rw [List.append_nil]
    exact h
  | step _ a hroom ih =>
    rw [← List.append_assoc]
    exact .step ih a hroom

theorem Later.relates (h : Later w w' new) (hp : w.problems[i]? = some p)
    (R : List Event → Problem → Prop) (hnow : R [] p)
    (hother : ∀ {new more q}, R new q → (∀ e ∈ more, e.problem ≠ i) → R (new ++ more) q)
    (hoperated : ∀ {new q} (op : Operation), R new q → (op.after q).InCapacity →
      R (new ++ eventsOf i op q) (op.after q)) : ∃ q, w'.problems[i]? = some q ∧ R new q := by
  induction h with
  | refl => exact ⟨p, hp, hnow⟩
  | @step w' new _ a hroom ih =>
    obtain ⟨q, hq, hr⟩ := ih
    cases a with
    | create tableau =>
      refine ⟨q, ?_, ?_⟩
      · change (w'.create tableau).problems[i]? = some q
        unfold create
        split
        · exact (List.getElem?_append_left (List.getElem?_eq_some_iff.mp hq).1).trans hq
        · exact hq
      · rw [show w'.events (.create tableau) = [] from rfl, List.append_nil]
        exact hr
    | operate j op =>
      have hafter : (w'.operate j op).problems[i]? = some (if j = i then op.after q else q) := by
        rw [problems_operate, hq]
        rfl
      refine ⟨_, hafter, ?_⟩
      by_cases hji : j = i
      · subst hji
        have hevents : w'.events (.operate j op) = eventsOf j op q := by simp only [events, hq]
        rw [if_pos rfl] at hafter ⊢
        rw [hevents]
        exact hoperated op hr (hroom _ (List.mem_of_getElem? hafter))
      · rw [if_neg hji]
        refine hother hr fun e he => ?_
        rwa [problem_of_mem_events he]

theorem Later.follows (h : Later w w' new) (hp : w.problems[i]? = some p) (hr : p.Reachable) :
    ∃ q, w'.problems[i]? = some q ∧ Follows new i p q :=
  h.relates hp (Follows · i p ·) (.refl hr) Follows.other fun _ hf hroom => hf.operated hroom

end Process

end LinearProgram
