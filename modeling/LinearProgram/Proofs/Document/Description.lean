import LinearProgram.Document.Exchange
import LinearProgram.Proofs.Problem.Reading

namespace LinearProgram

def Column.record (c : Column) : VariableRecord :=
  ⟨c.name, c.type, c.bound, Double.plain c.objective⟩

def Row.record (names : List String) (r : Row) : ConstraintRecord :=
  ⟨r.name, r.bound, r.entries.map fun e => (names.getD e.column "", e.coefficient)⟩

namespace Problem

def description (p : Problem) : Document where
  name := p.name
  objectiveName := p.objectiveName
  direction := p.tableau.direction
  vars := p.tableau.columns.map (·.record)
  constraints := p.tableau.rows.map (·.record (p.tableau.names .var))

variable {p : Problem}

namespace Consistent

variable (hp : p.Consistent)
include hp

theorem variableRecord_eq {i : Nat} {v : Variable} (hv : p.vars[i]? = some v) {c : Column}
    (hc : p.tableau.columns[i]? = some c) :
    p.variableRecord p.objectiveForm v = .ok c.record := by
  have hi : p.indexOf v = .ok i := hp.indexOf_eq_ok_iff.mpr hv
  have hname : p.nameOf v = .ok c.name := hp.nameOf_eq hi (by simp [Tableau.names, hc])
  have hbound : p.bound v = .ok c.bound := bound_eq hi (by simp [Tableau.bounds, hc])
  have hshare : ((p.objectiveForm.coefficient? v).getD 0) = Double.plain c.objective := by
    rw [hp.coefficient?_objectiveForm hv hc, Double.plain]
    split <;> rfl
  simp only [variableRecord, hname, variableType_eq hi hc, hbound, hshare, Outcome.bind_ok,
    Outcome.pure_eq_ok, Column.record]

theorem namedTerm_eq {e : Entry} (he : e.column < p.tableau.columns.length) :
    p.namedTerm (p.termAt e) =
      .ok ((p.tableau.names .var).getD e.column "", e.coefficient) := by
  have hlt : e.column < p.vars.length := hp.length_vars ▸ he
  have hi : p.indexOf (p.termAt e).var = .ok e.column := by
    rw [hp.indexOf_eq_ok_iff, var_termAt hlt]
    exact List.getElem?_eq_getElem hlt
  have hn : (p.tableau.names .var)[e.column]? =
      some ((p.tableau.names .var).getD e.column "") := by
    have hl : e.column < (p.tableau.names .var).length := by simpa [Tableau.names] using he
    rw [List.getD_eq_getElem?_getD, List.getElem?_eq_getElem hl]
    rfl
  simp only [namedTerm, hp.nameOf_eq hi hn, Outcome.bind_ok, Outcome.pure_eq_ok]
  rfl

theorem constraintRecord_eq {i : Nat} {c : Constraint} (hc : p.constraints[i]? = some c) {r : Row}
    (hr : p.tableau.rows[i]? = some r) :
    p.constraintRecord c = .ok (r.record (p.tableau.names .var)) := by
  have hi : p.indexOf c = .ok i := hp.indexOf_eq_ok_iff.mpr hc
  have hname : p.nameOf c = .ok r.name := hp.nameOf_eq hi (by simp [Tableau.names, hr])
  have hbound : p.bound c = .ok r.bound := bound_eq hi (by simp [Tableau.bounds, hr])
  have hrow := hp.sound.entries r (List.mem_of_getElem? hr)
  obtain ⟨l, hl, hterms⟩ := hp.termsOf_linear hi hr
  have hmap :
      (Linear.termsOf l).mapM p.namedTerm = .ok (r.record (p.tableau.names .var)).terms := by
    rw [hterms, List.mapM_map]
    exact Outcome.mapM_eq_ok fun e he => hp.namedTerm_eq (hrow.inRange e he)
  simp only [constraintRecord, hl, hname, hbound, Outcome.bind_ok, Outcome.pure_eq_ok]
  cases l with
  | none =>
    have hnil : (r.record (p.tableau.names .var)).terms = [] := (Except.ok.inj hmap).symm
    simp only [Row.record] at hnil ⊢
    rw [hnil]
  | some l =>
    have hsome : l.terms.mapM p.namedTerm = .ok (r.record (p.tableau.names .var)).terms := hmap
    simp only [hsome, Outcome.bind_ok]
    rfl

end Consistent

theorem Consistent.toDocument_eq (hp : p.Consistent) : p.toDocument = .ok p.description := by
  have hv : p.vars.mapM (p.variableRecord p.objectiveForm) = .ok p.description.vars := by
    apply Outcome.mapM_eq_ok_of_getElem?
    · simpa [description] using hp.length_vars
    · intro i v record hi hr
      rw [description, List.getElem?_map, Option.map_eq_some_iff] at hr
      obtain ⟨c, hc, rfl⟩ := hr
      exact hp.variableRecord_eq hi hc
  have hc : p.constraints.mapM p.constraintRecord = .ok p.description.constraints := by
    apply Outcome.mapM_eq_ok_of_getElem?
    · rw [description, List.length_map]
      exact (length_handles p .constraint).trans hp.size_rows
    · intro i c record hi hr
      rw [description, List.getElem?_map, Option.map_eq_some_iff] at hr
      obtain ⟨r, hr, rfl⟩ := hr
      exact hp.constraintRecord_eq hi hr
  simp only [toDocument, hp.objectiveLinear_eq, Outcome.bind_ok, getD_objectiveForm, hv, hc]
  rfl

end Problem

end LinearProgram
