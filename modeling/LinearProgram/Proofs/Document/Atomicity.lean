import LinearProgram.Proofs.Document.Appending
import LinearProgram.Proofs.Problem.Runs

/-!
When appending a document is all or nothing. The check looks at the terms of a constraint one by
one, but terms over one variable are summed afterwards, and numbers may have a sum that is none.
-/

namespace LinearProgram.Problem

variable {p : Problem} {d : Document} {created : List Variable}

def conclude (d : Document) (objective : Linear) (created : List Variable) :
    Edit (List Variable) := do
  setObjective (some (objective.addAll (List.zipWith Term.mk (d.vars.map (·.objective)) created)))
  setDirection d.direction
  setTitle setName d.name
  setTitle setObjectiveName d.objectiveName
  return created

theorem appendDocument_eq_conclude (d : Document) : appendDocument d = (do
    ask (·.checkDocument d)
    let objective ← ask (·.objectiveLinear)
    let created ← d.vars.mapM addVariableRecord
    d.constraints.forM (addConstraintRecord (namedBy d created))
    conclude d (objective.getD .empty) created) := rfl

theorem grows_conclude (d : Document) (objective : Linear) (created : List Variable) :
    Grows (conclude d objective created) :=
  (Grows.setObjective _).bind fun _ => (Grows.setDirection _).bind fun _ =>
    (Grows.setTitle Grows.setName _).bind fun _ =>
      (Grows.setTitle Grows.setObjectiveName _).bind fun _ => Grows.pure created

theorem grows_addConstraints (d : Document) (l : Linear) (created : List Variable) :
    Grows (d.constraints.forM (addConstraintRecord (namedBy d created)) >>= fun _ =>
      conclude d l created) :=
  (Grows.forM (Grows.addConstraintRecord _) _).bind fun _ => grows_conclude d l created

theorem grows_addVariables (d : Document) (l : Option Linear) :
    Grows (d.vars.mapM addVariableRecord >>= fun created =>
      d.constraints.forM (addConstraintRecord (namedBy d created)) >>= fun _ =>
        conclude d (l.getD .empty) created) :=
  (Grows.mapM Grows.addVariableRecord d.vars).bind fun _ => grows_addConstraints d _ _

theorem grows_appendDocument (d : Document) : Grows (appendDocument d) :=
  (Grows.ask _).bind fun _ => (Grows.ask _).bind fun l => grows_addVariables d l

theorem refused_of_check {e : Failure Error} (h : p.checkDocument d = .error e) :
    appendDocument d p = .error e p := by
  simp only [appendDocument, Edit.bind_apply, ask, h]

theorem Consistent.appendDocument_apply (hp : p.Consistent) (hc : p.checkDocument d = .ok ()) :
    appendDocument d p = (do
      let created ← d.vars.mapM addVariableRecord
      d.constraints.forM (addConstraintRecord (namedBy d created))
      conclude d p.objectiveForm created) p := by
  have hcheck : ask (·.checkDocument d) p = .ok () p := ask_ok hc
  have hobjective : ask (·.objectiveLinear) p = _ := ask_ok hp.objectiveLinear_eq
  rw [appendDocument_eq_conclude]
  simp only [Edit.bind_apply, hcheck, hobjective, getD_objectiveForm]

theorem summable_of_no_vars (ha : p.Admits d) (hv : d.vars = []) {r : ConstraintRecord}
    (hr : r ∈ d.constraints) : r.Summable := by
  intro name x hx
  have hterms : r.terms = [] := by
    rw [List.eq_nil_iff_forall_not_mem]
    intro t ht
    have hknown := ((ha.constraints r hr).terms t ht).1
    rw [hv] at hknown
    cases hknown
  rw [ConstraintRecord.sum?, hterms] at hx
  cases hx

theorem Started.ne_of_columns (hp : p.Consistent) (h : Started p d created) {q : Problem}
    (hq : q.columns = (p.withVarsOf d).columns) (hv : d.vars ≠ []) : q ≠ p := by
  rintro rfl
  have hsize := h.consistent.size_columns
  rw [← hq, hp.size_columns, tableau_withVarsOf, List.length_append, List.length_map] at hsize
  exact hv (List.eq_nil_of_length_eq_zero (by omega))

structure Stopped (p : Problem) (d : Document) (created : List Variable) (e : Failure Error)
    (q : Problem) : Prop where
  room : p.columns.size + d.vars.length ≤ Table.capacity
  started : Started p d created
  stopped : d.constraints.forM (addConstraintRecord (namedBy d created)) (p.withVarsOf d) =
    .error e q
  run : appendDocument d p = .error e q
  columns : q.columns = (p.withVarsOf d).columns

theorem Consistent.append_or_stop (hp : p.Consistent) (hcap : p.InCapacity) (ha : p.Admits d)
    (hroom : (Edit.final (appendDocument d) p).InCapacity) :
    ((∀ r ∈ d.constraints, r.Summable) ∧
        ∃ created q, appendDocument d p = .ok created q ∧ Appended p d created q) ∨
      (¬ ∀ r ∈ d.constraints, r.Summable) ∧ ∃ created e q, Stopped p d created e q := by
  have happly := hp.appendDocument_apply (hp.checkDocument_eq_ok_iff.mpr ha)
  have hroom₁ : (Edit.final (d.vars.mapM addVariableRecord >>= fun created =>
      d.constraints.forM (addConstraintRecord (namedBy d created)) >>= fun _ =>
        conclude d p.objectiveForm created) p).InCapacity := by
    unfold Edit.final at hroom ⊢
    rwa [happly] at hroom
  have hgrows := grows_addConstraints d p.objectiveForm
  have hvars := hp.room_of_addVariables hcap ha.vars ha.varsDistinct
    (inCapacity_of_bind hgrows hroom₁)
  obtain ⟨created, h⟩ := hp.started ha hvars
  rw [Edit.final_bind_ok h.run] at hroom₁
  have hcap₁ := inCapacity_of_grows (hgrows created) hroom₁
  obtain ⟨htakes, hrows⟩ | ⟨hnot, e, q, herr, hcols⟩ :=
    h.consistent.addConstraints_cases hcap₁ ha.fits_constraints ha.constraintsDistinct
      (inCapacity_of_bind (fun _ => grows_conclude d _ created) hroom₁)
  · rw [withVarsOf, rows_withColumns] at hrows
    have hs : ∀ r ∈ d.constraints, r.Summable := fun r hr => (h.takes_iff hp ha hr).mp (htakes r hr)
    obtain ⟨q, hq⟩ := h.finish hp ha hrows hs
    exact .inl ⟨hs, created, q, hq⟩
  · have hs : ¬ ∀ r ∈ d.constraints, r.Summable := fun hs =>
      hnot fun r hr => (h.takes_iff hp ha hr).mpr (hs r hr)
    refine .inr ⟨hs, created, e, q, hvars, h, herr, ?_, hcols⟩
    rw [happly]
    simp only [Edit.bind_apply, h.run, herr]

theorem Consistent.append_cases (hp : p.Consistent) (hcap : p.InCapacity) (ha : p.Admits d)
    (hroom : (Edit.final (appendDocument d) p).InCapacity) :
    ((∀ r ∈ d.constraints, r.Summable) ∧
        ∃ created q, appendDocument d p = .ok created q ∧ Appended p d created q) ∨
      (¬ ∀ r ∈ d.constraints, r.Summable) ∧ ∃ e q, appendDocument d p = .error e q ∧ q ≠ p := by
  obtain hok | ⟨hs, created, e, q, h⟩ := hp.append_or_stop hcap ha hroom
  · exact .inl hok
  · refine .inr ⟨hs, e, q, h.run, h.started.ne_of_columns hp h.columns ?_⟩
    exact fun hv => hs fun r hr => summable_of_no_vars ha hv hr

/-- Appending is all or nothing exactly when each constraint of a checked document can be
summed. -/
theorem append_atomic_iff (h : p.Reachable) (hroom : ((Operation.append d).after p).InCapacity) :
    (∀ e q, appendDocument d p = .error e q → q = p) ↔
      (p.checkDocument d = .ok () → ∀ r ∈ d.constraints, r.Summable) := by
  have hp := h.consistent
  unfold Operation.after Operation.perform at hroom
  rw [Edit.final_bind_pure] at hroom
  constructor
  · intro hatomic hc
    obtain ⟨hs, -⟩ | ⟨-, e, q, herr, hne⟩ :=
      hp.append_cases h.inCapacity (hp.checkDocument_eq_ok_iff.mp hc) hroom
    · exact hs
    · exact absurd (hatomic e q herr) hne
  · intro hs e q herr
    cases hc : p.checkDocument d with
    | error e' =>
      rw [refused_of_check hc] at herr
      cases herr
      rfl
    | ok u =>
      obtain ⟨-, created, t, hok, -⟩ | ⟨hnot, -⟩ :=
        hp.append_cases h.inCapacity (hp.checkDocument_eq_ok_iff.mp hc) hroom
      · rw [hok] at herr
        cases herr
      · exact absurd (hs hc) hnot

def opposed : Document where
  name := none
  objectiveName := none
  direction := .minimize
  vars := [⟨"x", .real, .free, 0⟩]
  constraints := [⟨"c", .free, [("x", 1 / 0), ("x", -(1 / 0))]⟩]

theorem append_opposed : ∃ q, appendDocument opposed (new ⟨0⟩) =
    .error (.refused (.invalid .coefficientNaN)) q ∧ q.vars.length = 1 := by
  have h : (match appendDocument opposed (new ⟨0⟩) with
      | .error e q => decide (e = .refused (.invalid .coefficientNaN)) && q.vars.length == 1
      | .ok _ _ => false) = true := by decide +kernel
  cases hr : appendDocument opposed (new ⟨0⟩) with
  | ok vs q =>
    rw [hr] at h
    cases h
  | error e q =>
    rw [hr] at h
    simp only [Bool.and_eq_true, decide_eq_true_eq, beq_iff_eq] at h
    exact ⟨q, by rw [h.1], h.2⟩

theorem append_not_atomic : ¬ ∀ (p : Problem) (d : Document), p.Reachable →
    ∀ e q, appendDocument d p = .error e q → q = p := by
  intro h
  obtain ⟨q, herr, hq⟩ := append_opposed
  rw [h (new ⟨0⟩) opposed (reachable_new ⟨0⟩) _ q herr] at hq
  cases hq

theorem append_atomic_iff_opposed :
    ((Operation.append opposed).after (new ⟨0⟩)).InCapacity ∧
      ((∀ e q, appendDocument opposed (new ⟨0⟩) = .error e q → q = new ⟨0⟩) ↔
        ((new ⟨0⟩).checkDocument opposed = .ok () → ∀ r ∈ opposed.constraints, r.Summable)) :=
  ⟨by decide +kernel, append_atomic_iff (reachable_new ⟨0⟩) (by decide +kernel)⟩

end LinearProgram.Problem
