import LinearProgram.Proofs.Problem.Histories

namespace LinearProgram

namespace Problem

variable {p q : Problem} {kind : EntityKind} {l : Linear} {op : Operation}

section Failing

variable {α : Type} {x : Edit α} {c : Change} {d : Nat}

theorem Moves.refused (h : Moves c d x p) {e : Failure Error} (he : x p = .error e q) :
    (∃ why, e = .refused why) ∧ q = p := by
  refine ⟨?_, h.unchanged he⟩
  obtain ⟨-, ⟨why, hr⟩ | ⟨a, ha⟩⟩ | ⟨-, a, r, hr, -⟩ := h
  · rw [he] at hr
    cases hr
    exact ⟨why, rfl⟩
  · rw [he] at ha
    cases ha
  · rw [he] at hr
    cases hr

/-- An operation that makes a single change and fails has been refused, and nothing has changed.
Room is needed for an integer variable alone, which is found again by its handle before it gets its
bounds. -/
theorem unchanged_of_failed (hp : p.Reachable) (hop : op.isComposite = false)
    (hroom : (op.after p).InCapacity) {e : Failure Error} (he : op.perform p = .error e q) :
    (∃ why, e = .refused why) ∧ q = p := by
  obtain ⟨c, -, h⟩ := op.moves hp.consistent hop hroom
  exact h.refused he

theorem unchanged_of_duplicate :
    let op := Operation.addInteger "y" .free
    op.isComposite = false ∧ (op.after thinned).InCapacity ∧
      ∃ e q, op.perform thinned = .error e q ∧ (∃ why, e = .refused why) ∧ q = thinned := by
  intro op
  have hroom : (op.after thinned).InCapacity := by decide +kernel
  obtain ⟨e, q, he⟩ : ∃ e q, op.perform thinned = .error e q :=
    Edit.error_of_answer? (by decide +kernel)
  exact ⟨rfl, hroom, e, q, he, unchanged_of_failed reachable_thinned rfl hroom he⟩

end Failing

section Attaching

/-- The operation attaches the form to the objective, to a constraint or to a new one, and the form
is all that it can fail at. -/
inductive Attaches (p : Problem) (l : Linear) : Operation → Prop
  | objective : Attaches p l (.setObjective (some l))
  | row {c : Constraint} (hc : c ∈ p.constraints) : Attaches p l (.setLinear c (some l))
  | constraint {name : String} {b : Bound} (hn : Nameable (p.tableau.names .constraint) name)
    (hb : b.hasNaN = false) : Attaches p l (.addConstraint name (some l) b)

theorem resolveTerm_error {t : Term} {e : Failure Error} (h : p.resolveTerm t = .error e) :
    ∃ fault, e = .refused (.invalid fault) := by
  unfold resolveTerm at h
  split at h
  · cases h
    exact ⟨_, rfl⟩
  · split at h
    · cases h
    · cases h
      exact ⟨_, rfl⟩
    · rename_i e' hlive he
      cases h
      rw [indexOf_eq] at he
      split at he
      · split at he
        · cases he
        · cases he
          exact absurd rfl hlive
      · cases he
        exact ⟨_, rfl⟩

theorem resolve_error {l : Option Linear} {e : Failure Error} (h : p.resolve l = .error e) :
    ∃ fault, e = .refused (.invalid fault) := by
  rw [resolve_eq] at h
  obtain ⟨t, -, ht⟩ := Outcome.error_of_mapM h
  exact resolveTerm_error ht

namespace Attaches

variable (hp : p.Consistent) (ha : p.Attaches l op)
include hp ha

theorem passes (hl : p.Takes (some l)) : ∃ answer q, op.perform p = .ok answer q := by
  cases ha with
  | objective => exact ⟨_, _, by rw [Operation.perform, Edit.bind_apply, hp.setObjective_eq hl]; rfl⟩
  | row hc => exact ⟨_, _, by rw [Operation.perform, Edit.bind_apply, hp.setLinear_eq hc hl]; rfl⟩
  | constraint hn hb =>
    exact ⟨_, _, by rw [Operation.perform, Edit.bind_apply, hp.addConstraint_eq hn hl hb]; rfl⟩

theorem refused (hl : ¬ p.Takes (some l)) :
    ∃ fault, op.perform p = .error (.refused (.invalid fault)) p := by
  cases hr : p.resolve (some l) with
  | ok entries => exact absurd (hp.resolve_eq_ok_iff.mp hr).1 hl
  | error e =>
    obtain ⟨fault, rfl⟩ := resolve_error hr
    refine ⟨fault, ?_⟩
    cases ha with
    | objective => simp only [Operation.perform, setObjective, Edit.bind_apply, ask, hr]
    | row hc =>
      simp only [Operation.perform, setLinear, Edit.bind_apply, ask, hp.indexOf_of_mem hc, hr]
    | constraint hn hb =>
      simp only [Operation.perform, addConstraint, Edit.bind_apply, ask,
        hp.checkName_eq_ok_iff.mpr hn, hr]

end Attaches

end Attaching

end Problem

end LinearProgram
