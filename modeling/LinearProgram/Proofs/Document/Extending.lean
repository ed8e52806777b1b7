import LinearProgram.Proofs.Document.Atomicity
import LinearProgram.Proofs.Document.Copying
import LinearProgram.Proofs.Document.Merging

namespace LinearProgram

/-- The record as a problem gives it back. A binary variable has the bounds of its type, and an
integer one with these bounds is binary. -/
def VariableRecord.settled (r : VariableRecord) : VariableRecord :=
  let bound := if r.type = .binary then .binary else r.bound
  { r with
    type := if r.type ≠ .real ∧ bound == .binary then .binary else r.type
    bound := bound
    objective := Double.plain r.objective }

namespace Document

/-- The document can be appended where the other is the document of what is there. -/
structure Fits (d old : Document) : Prop where
  vars : ∀ r ∈ d.vars, r.Fits (old.vars.map (·.name))
  varsDistinct : (d.vars.map (·.name)).Nodup
  constraints : ∀ r ∈ d.constraints,
    r.Fits (old.constraints.map (·.name)) (d.vars.map (·.name))
  constraintsDistinct : (d.constraints.map (·.name)).Nodup
  title : ∀ name ∈ d.name, name.utf8ByteSize ≤ nameLimit
  objectiveTitle : ∀ name ∈ d.objectiveName, name.utf8ByteSize ≤ nameLimit

def extended (old d : Document) : Document where
  name := d.name <|> old.name
  objectiveName := d.objectiveName <|> old.objectiveName
  direction := d.direction
  vars := old.vars ++ d.vars.map (·.settled)
  constraints := old.constraints ++ d.constraints.map (·.merged)

end Document

namespace Problem

variable {p q : Problem} {d : Document} {created : List Variable}

theorem checkTitle_eq_ok_iff {name : Option String} :
    checkTitle name = .ok () ↔ ∀ n ∈ name, n.utf8ByteSize ≤ nameLimit := by
  cases name with
  | none => simp [checkTitle]
  | some n => simp [checkTitle, checkLength_eq_ok_iff]

theorem admits_iff_fits : p.Admits d ↔ d.Fits p.description := by
  obtain ⟨hvars, hconstraints⟩ := Consistent.names_description p
  constructor
  · intro h
    refine ⟨?_, h.varsDistinct, ?_, h.constraintsDistinct, ?_, ?_⟩
    · rw [hvars]
      exact h.vars
    · rw [hconstraints]
      exact h.constraints
    · exact checkTitle_eq_ok_iff.mp h.title
    · exact checkTitle_eq_ok_iff.mp h.objectiveTitle
  · intro h
    refine ⟨?_, h.varsDistinct, ?_, h.constraintsDistinct, ?_, ?_⟩
    · rw [← hvars]
      exact h.vars
    · rw [← hconstraints]
      exact h.constraints
    · exact checkTitle_eq_ok_iff.mpr h.title
    · exact checkTitle_eq_ok_iff.mpr h.objectiveTitle

theorem record_column_priced (r : VariableRecord) :
    (r.column.priced r.objective).record = r.settled := by
  obtain ⟨name, type, bound, objective⟩ := r
  have hprice : Double.plain (Double.plain objective) = Double.plain objective :=
    Double.plain_plain _
  cases type with
  | binary =>
    change (⟨name, _, Bound.binary, Double.plain (Double.plain objective)⟩ : VariableRecord) = _
    rw [hprice]
    rfl
  | integer =>
    change (⟨name, _, bound, Double.plain (Double.plain objective)⟩ : VariableRecord) = _
    simp [hprice, VariableRecord.settled, Column.type, VariableRecord.column, Column.priced,
      Column.typed]
  | real =>
    change (⟨name, _, bound, Double.plain (Double.plain objective)⟩ : VariableRecord) = _
    rw [hprice]
    rfl

theorem getD_idxOf_of_mem_zip {names : List String} {vars : List Variable} {name : String}
    {v : Variable} (hn : vars.Nodup) (h : (name, v) ∈ names.zip vars) :
    names.getD (vars.idxOf v) "" = name := by
  obtain ⟨i, hi, hv⟩ := List.mem_iff_getElem.mp h
  rw [List.getElem_zip, Prod.mk.injEq] at hv
  obtain ⟨rfl, rfl⟩ := hv
  rw [hn.idxOf_getElem, List.getD_eq_getElem?_getD, List.getElem?_eq_getElem]
  rfl

theorem record_rowFor {named : List (String × Variable)} (hn : Naming named) {names : List String}
    (hv : q.vars.Nodup) (hnamed : named ⊆ names.zip q.vars) {r : ConstraintRecord}
    (hknown : ∀ t ∈ r.terms, t.1 ∈ named.map Prod.fst) :
    (q.rowFor named r).record names = r.merged := by
  have hf : ∀ e ∈ named, names.getD (q.vars.idxOf e.2) "" = e.1 := fun e he =>
    getD_idxOf_of_mem_zip hv (hnamed he)
  have hentries :=
    (renamed_formOf (f := fun v => names.getD (q.vars.idxOf v) "") hn hf hknown).entries
  rw [ConstraintRecord.merged, hentries]
  simp only [Row.record, rowFor, rowOf, Linear.termsOf, Linear.terms, entryOf, Option.map_some,
    Option.getD_some, List.map_map, Function.comp_def]

theorem record_append {names more : List String} {r : Row}
    (hr : ∀ e ∈ r.entries, e.column < names.length) : r.record (names ++ more) = r.record names := by
  have hmap : (r.entries.map fun e => ((names ++ more).getD e.column "", e.coefficient)) =
      r.entries.map fun e => (names.getD e.column "", e.coefficient) := by
    refine List.map_congr_left fun e he => ?_
    rw [List.getD_append _ _ _ _ (hr e he)]
  rw [Row.record, Row.record, hmap]

namespace Appended

variable (hp : p.Consistent) (ha : p.Admits d) (h : Appended p d created q)
include h

theorem names_vars : q.tableau.names .var = p.tableau.names .var ++ d.vars.map (·.name) := by
  simp only [Tableau.names, h.columns, List.map_append, List.map_map, Function.comp_def,
    Column.priced, VariableRecord.column_name]

include hp in
theorem length_created : created.length = d.vars.length := by
  have hl := h.consistent.length_vars
  rw [h.vars, h.columns, List.length_append, List.length_append, List.length_map, List.length_map,
    hp.length_vars] at hl
  omega

include hp ha in
theorem naming : Naming (namedBy d created) := by
  have hnodup : (p.vars ++ created).Nodup := h.vars ▸ h.consistent.handles_nodup .var
  exact naming_namedBy ha.varsDistinct (List.nodup_append'.mp hnodup).2.1 (h.length_created hp)

theorem description_vars :
    q.description.vars = p.description.vars ++ d.vars.map (·.settled) := by
  have hold (c : Column) : (c.priced c.objective).record = c.record := by
    change (⟨c.name, c.type, c.bound, Double.plain (Double.plain c.objective)⟩ : VariableRecord) = _
    rw [Double.plain_plain]
    rfl
  simp only [description, h.columns, List.map_append, List.map_map, Function.comp_def, hold,
    record_column_priced]

include hp ha

theorem description_constraints :
    q.description.constraints = p.description.constraints ++ d.constraints.map (·.merged) := by
  have hsub : namedBy d created ⊆ (q.tableau.names .var).zip q.vars := by
    rw [h.names_vars, h.vars, List.zip_append hp.length_names_var, namedBy]
    exact List.subset_append_right _ _
  simp only [description, h.rows, List.map_append, List.map_map]
  congr 1
  · refine List.map_congr_left fun r hr => ?_
    rw [h.names_vars]
    exact record_append (hp.proper_of_row hr).inRange
  · refine List.map_congr_left fun r hr => ?_
    refine record_rowFor (h.naming hp ha) (h.consistent.handles_nodup .var) hsub fun t ht => ?_
    rw [namedBy, List.map_fst_zip (by simp [h.length_created hp])]
    exact ((ha.constraints r hr).terms t ht).1

theorem description_eq : q.description = p.description.extended d := by
  have hv := h.description_vars
  have hc := h.description_constraints hp ha
  rw [Document.extended, ← hv, ← hc, ← h.direction]
  simp only [description, h.name, h.objectiveName]

end Appended

theorem Consistent.fits_or_refused (hp : p.Consistent) (hcap : p.InCapacity)
    (hadds : ∀ r ∈ d.constraints, r.Adds)
    (hroom : (Edit.final (appendDocument d) p).InCapacity) :
    (d.Fits p.description ∧ ∃ created q, appendDocument d p = .ok created q ∧
        q.toDocument = .ok (p.description.extended d) ∧ q.vars = p.vars ++ created) ∨
      ¬ d.Fits p.description ∧ ∃ e, appendDocument d p = .error e p := by
  by_cases hfits : d.Fits p.description
  · have ha := admits_iff_fits.mpr hfits
    have hs : ∀ r ∈ d.constraints, r.Summable := fun r hr =>
      (hadds r hr).summable fun t ht => ((ha.constraints r hr).terms t ht).2
    obtain ⟨-, created, q, hrun, hq⟩ | ⟨hnot, -⟩ := hp.append_cases hcap ha hroom
    · refine .inl ⟨hfits, created, q, hrun, ?_, hq.vars⟩
      rw [hq.consistent.toDocument_eq, hq.description_eq hp ha]
    · exact absurd hs hnot
  · refine .inr ⟨hfits, ?_⟩
    cases hc : p.checkDocument d with
    | ok u => exact absurd (admits_iff_fits.mp (hp.checkDocument_eq_ok_iff.mp hc)) hfits
    | error e => exact ⟨e, refused_of_check hc⟩

/-- A document is appended exactly when it fits the document of the problem, which it extends then.
Otherwise nothing is changed. -/
theorem extended_of_reachable (h : p.Reachable) (hadds : ∀ r ∈ d.constraints, r.Adds)
    (hroom : ((Operation.append d).after p).InCapacity) :
    (∀ r : ConstraintRecord, (∀ t ∈ r.terms, t.2.isFinite = true) → r.Adds) ∧
      ∃ old, p.toDocument = .ok old ∧
        ((∃ created q, appendDocument d p = .ok created q) ↔ d.Fits old) ∧
        (∀ created q, appendDocument d p = .ok created q →
          q.toDocument = .ok (old.extended d) ∧ q.vars = p.vars ++ created) ∧
        ∀ e q, appendDocument d p = .error e q → q = p := by
  have hp := h.consistent
  unfold Operation.after Operation.perform at hroom
  rw [Edit.final_bind_pure] at hroom
  refine ⟨fun r => ConstraintRecord.adds_of_finite, p.description, hp.toDocument_eq, ?_⟩
  obtain ⟨hfits, created, q, hrun, hq⟩ | ⟨hfits, e, hrun⟩ :=
    hp.fits_or_refused h.inCapacity hadds hroom
  · refine ⟨iff_of_true ⟨created, q, hrun⟩ hfits, fun _ _ hok => ?_, fun _ _ herr => ?_⟩
    · rw [hrun] at hok
      cases hok
      exact hq
    · rw [hrun] at herr
      cases herr
  · refine ⟨iff_of_false ?_ hfits, fun _ _ hok => ?_, fun _ _ herr => ?_⟩
    · rintro ⟨created, q, hok⟩
      rw [hrun] at hok
      cases hok
    · rw [hrun] at hok
      cases hok
    · rw [hrun] at herr
      cases herr
      rfl

def varied : Document where
  name := some "v"
  objectiveName := none
  direction := .maximize
  vars := [⟨"x", .binary, ⟨some (0 / 0), none⟩, 1⟩, ⟨"w", .integer, .binary, -0⟩,
    ⟨"z", .real, ⟨some 2, some 5⟩, 3⟩]
  constraints := [⟨"k", .free, [("w", 1), ("z", 2), ("w", 3)]⟩,
    ⟨"m", .fixed 0, [("x", 1), ("x", -1)]⟩]

theorem adds_varied : ∀ r ∈ varied.constraints, r.Adds := by
  have hfinite : ∀ r ∈ varied.constraints, ∀ t ∈ r.terms, t.2.isFinite = true := by
    decide +kernel
  exact fun r hr => ConstraintRecord.adds_of_finite (hfinite r hr)

theorem append_varied : ∃ created q, appendDocument varied thinned = .ok created q := by
  have h : (Edit.answer? (appendDocument varied) thinned).isSome = true := by decide +kernel
  obtain ⟨created, hcreated⟩ := Option.isSome_iff_exists.mp h
  exact ⟨created, _, Edit.ok_of_answer? hcreated⟩

theorem extended_thinned :
    (∀ r ∈ varied.constraints, r.Adds) ∧ ((Operation.append varied).after thinned).InCapacity ∧
      ∃ old, thinned.toDocument = .ok old ∧ varied.Fits old ∧
        ∃ created q, appendDocument varied thinned = .ok created q ∧
          q.toDocument = .ok (old.extended varied) ∧ q.vars = thinned.vars ++ created := by
  have hroom : ((Operation.append varied).after thinned).InCapacity := by decide +kernel
  obtain ⟨-, old, hold, hfits, hok, -⟩ := extended_of_reachable reachable_thinned adds_varied hroom
  obtain ⟨created, q, hrun⟩ := append_varied
  exact ⟨adds_varied, hroom, old, hold, hfits.mp ⟨created, q, hrun⟩, created, q, hrun,
    hok created q hrun⟩

end Problem

end LinearProgram
