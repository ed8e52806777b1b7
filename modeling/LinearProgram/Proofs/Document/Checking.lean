import LinearProgram.Document.Exchange
import LinearProgram.Proofs.Problem.Checks

namespace LinearProgram

structure VariableRecord.Fits (taken : List String) (r : VariableRecord) : Prop where
  name : Problem.Nameable taken r.name
  bound : r.type ≠ .binary → r.bound.hasNaN = false
  objective : r.objective.isNaN = false

structure ConstraintRecord.Fits (taken known : List String) (r : ConstraintRecord) : Prop where
  name : Problem.Nameable taken r.name
  bound : r.bound.hasNaN = false
  terms : ∀ t ∈ r.terms, t.1 ∈ known ∧ t.2.isNaN = false

namespace Problem

/-- A document that can be added, as far as its records tell one by one. -/
structure Admits (p : Problem) (d : Document) : Prop where
  vars : ∀ r ∈ d.vars, r.Fits (p.tableau.names .var)
  varsDistinct : (d.vars.map (·.name)).Nodup
  constraints : ∀ r ∈ d.constraints,
    r.Fits (p.tableau.names .constraint) (d.vars.map (·.name))
  constraintsDistinct : (d.constraints.map (·.name)).Nodup
  title : checkTitle d.name = .ok ()
  objectiveTitle : checkTitle d.objectiveName = .ok ()

variable {p : Problem} {kind : EntityKind}

theorem checkCoefficient_eq_ok_iff {x : Float} : checkCoefficient x = .ok () ↔ x.isNaN = false := by
  unfold checkCoefficient
  cases x.isNaN <;> simp [Outcome.refuseFault, Outcome.refuse]

theorem checkTerm_eq_ok_iff {known : List String} {constraint : String} {t : String × Float} :
    checkTerm known constraint t = .ok () ↔ t.1 ∈ known ∧ t.2.isNaN = false := by
  unfold checkTerm
  by_cases hk : t.1 ∈ known
  · simp [hk, checkCoefficient_eq_ok_iff]
  · simp [hk, Outcome.refuse]

theorem distinct_cons_iff {α : Type} {P : α → Prop} {f : α → String} {a : α} {l : List α}
    {before : List String} :
    (P a ∧ f a ∉ before) ∧ (∀ b ∈ l, P b ∧ f b ∉ f a :: before) ∧ (l.map f).Nodup ↔
      (∀ b ∈ a :: l, P b ∧ f b ∉ before) ∧ ((a :: l).map f).Nodup := by
  rw [List.forall_mem_cons, List.map_cons, List.nodup_cons, List.mem_map]
  constructor
  · rintro ⟨ha, hl, hd⟩
    refine ⟨⟨ha, fun b hb => ⟨(hl b hb).1, ?_⟩⟩, ?_, hd⟩
    · exact fun hm => (hl b hb).2 (List.mem_cons_of_mem _ hm)
    · rintro ⟨b, hb, hab⟩
      exact (hl b hb).2 (hab ▸ List.mem_cons_self)
  · rintro ⟨⟨ha, hl⟩, hn, hd⟩
    refine ⟨ha, fun b hb => ⟨(hl b hb).1, ?_⟩, hd⟩
    rw [List.mem_cons, not_or]
    exact ⟨fun hab => hn ⟨b, hb, hab⟩, (hl b hb).2⟩

namespace Consistent

variable (hp : p.Consistent)
include hp

theorem checkRecordName_eq_ok_iff {before : List String} {name : String} :
    p.checkRecordName kind before name = .ok () ↔
      Nameable (p.tableau.names kind) name ∧ name ∉ before := by
  unfold checkRecordName
  rw [Outcome.seq_eq_ok, hp.checkName_eq_ok_iff]
  by_cases hn : name ∈ before <;> simp [hn, Outcome.refuse]

theorem checkVariables_eq_ok_iff {before : List String} {records : List VariableRecord} :
    p.checkVariables before records = .ok () ↔
      (∀ r ∈ records, r.Fits (p.tableau.names .var) ∧ r.name ∉ before) ∧
        (records.map (·.name)).Nodup := by
  induction records generalizing before with
  | nil => simp [checkVariables]
  | cons r records ih =>
    have hr : p.checkVariables before (r :: records) = .ok () ↔
        (r.Fits (p.tableau.names .var) ∧ r.name ∉ before) ∧
          p.checkVariables (r.name :: before) records = .ok () := by
      rw [checkVariables, Outcome.seq_eq_ok, hp.checkRecordName_eq_ok_iff]
      by_cases hb : r.type = .binary
      · simp only [hb, ↓reduceIte, Outcome.seq_eq_ok, checkCoefficient_eq_ok_iff]
        constructor
        · rintro ⟨⟨hn, hnew⟩, ho, hrest⟩
          exact ⟨⟨⟨hn, fun h => absurd hb h, ho⟩, hnew⟩, hrest⟩
        · rintro ⟨⟨hf, hnew⟩, hrest⟩
          exact ⟨⟨hf.name, hnew⟩, hf.objective, hrest⟩
      · simp only [hb, ↓reduceIte, Outcome.seq_eq_ok, checkCoefficient_eq_ok_iff,
          Bound.validate_eq_ok_iff]
        constructor
        · rintro ⟨⟨hn, hnew⟩, hbound, ho, hrest⟩
          exact ⟨⟨⟨hn, fun _ => hbound, ho⟩, hnew⟩, hrest⟩
        · rintro ⟨⟨hf, hnew⟩, hrest⟩
          exact ⟨⟨hf.name, hnew⟩, hf.bound hb, hf.objective, hrest⟩
    rw [hr, ih, distinct_cons_iff]

theorem checkConstraints_eq_ok_iff {known before : List String} {records : List ConstraintRecord} :
    p.checkConstraints known before records = .ok () ↔
      (∀ r ∈ records, r.Fits (p.tableau.names .constraint) known ∧ r.name ∉ before) ∧
        (records.map (·.name)).Nodup := by
  induction records generalizing before with
  | nil => simp [checkConstraints]
  | cons r records ih =>
    have hr : p.checkConstraints known before (r :: records) = .ok () ↔
        (r.Fits (p.tableau.names .constraint) known ∧ r.name ∉ before) ∧
          p.checkConstraints known (r.name :: before) records = .ok () := by
      simp only [checkConstraints, Outcome.seq_eq_ok, hp.checkRecordName_eq_ok_iff,
        Bound.validate_eq_ok_iff, Outcome.forM_eq_ok_iff, checkTerm_eq_ok_iff]
      constructor
      · rintro ⟨⟨hn, hnew⟩, hbound, hterms, hrest⟩
        exact ⟨⟨⟨hn, hbound, hterms⟩, hnew⟩, hrest⟩
      · rintro ⟨⟨hf, hnew⟩, hrest⟩
        exact ⟨⟨hf.name, hnew⟩, hf.bound, hf.terms, hrest⟩
    rw [hr, ih, distinct_cons_iff]

theorem checkDocument_eq_ok_iff {d : Document} : p.checkDocument d = .ok () ↔ p.Admits d := by
  simp only [checkDocument, Outcome.seq_eq_ok, hp.checkVariables_eq_ok_iff,
    hp.checkConstraints_eq_ok_iff, List.not_mem_nil, not_false_eq_true, and_true]
  constructor
  · rintro ⟨⟨hv, hvd⟩, ⟨hc, hcd⟩, ht, ho⟩
    exact ⟨hv, hvd, hc, hcd, ht, ho⟩
  · rintro ⟨hv, hvd, hc, hcd, ht, ho⟩
    exact ⟨⟨hv, hvd⟩, ⟨hc, hcd⟩, ht, ho⟩

end Consistent

end Problem

end LinearProgram
