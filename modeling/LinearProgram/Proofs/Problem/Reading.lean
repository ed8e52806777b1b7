import LinearProgram.Proofs.Linear
import LinearProgram.Proofs.Problem.Consistent

namespace LinearProgram

namespace Problem

def termAt (p : Problem) (e : Entry) : Term :=
  ⟨e.coefficient, p.vars.getD e.column ⟨p.id, ⟨0, 0⟩⟩⟩

def priceEntries (p : Problem) : List Entry := Entry.stored (dense 0 p.tableau.objective)

def objectiveForm (p : Problem) : Linear := .ofTerms (p.priceEntries.map p.termAt)

variable {p : Problem} {entries : List Entry}

theorem variableOf_eq {i : Nat} {v : Variable} (hv : p.vars[i]? = some v) :
    p.variableOf i = .ok v := by
  have hat : p.handleAt? .var i = some v := by
    rw [← hv]
    exact List.getElem?_map.symm
  simp only [variableOf, hat, Outcome.pure_eq_ok]

theorem termOf_eq {e : Entry} (he : e.column < p.vars.length) : p.termOf e = .ok (p.termAt e) := by
  have hv := List.getElem?_eq_getElem he
  simp only [termOf, variableOf_eq hv, Outcome.bind_ok, Outcome.pure_eq_ok, termAt,
    List.getD_eq_getElem?_getD, hv, Option.getD_some]

theorem var_termAt {e : Entry} (he : e.column < p.vars.length) :
    (p.termAt e).var = p.vars[e.column] := by
  simp only [termAt, List.getD_eq_getElem?_getD, List.getElem?_eq_getElem he, Option.getD_some]

theorem getD_objectiveForm (p : Problem) :
    (if p.objectiveForm.isEmpty then none else some p.objectiveForm).getD .empty =
      p.objectiveForm := by
  split
  · rename_i he
    apply Linear.ext_entries
    exact (List.isEmpty_iff.mp he).symm
  · rfl

section Dense

variable {xs : List Float} {k : Nat}

theorem mem_dense {e : Entry} :
    e ∈ dense k xs ↔ k ≤ e.column ∧ xs[e.column - k]? = some e.coefficient := by
  induction xs generalizing k with
  | nil => simp [dense]
  | cons x xs ih =>
    rw [dense, List.mem_cons, ih]
    constructor
    · rintro (rfl | ⟨hk, he⟩)
      · simp
      · have hi : e.column - k = e.column - (k + 1) + 1 := by omega
        rw [hi, List.getElem?_cons_succ]
        exact ⟨by omega, he⟩
    · rintro ⟨hk, he⟩
      by_cases hc : e.column = k
      · left
        obtain ⟨column, y⟩ := e
        subst hc
        simpa [eq_comm] using he
      · right
        have hi : e.column - k = e.column - (k + 1) + 1 := by omega
        rw [hi, List.getElem?_cons_succ] at he
        exact ⟨by omega, he⟩

theorem columns_dense : (dense k xs).map (·.column) = List.range' k xs.length := by
  induction xs generalizing k with
  | nil => rfl
  | cons x xs ih => simp [dense, ih, List.range'_succ]

end Dense

namespace Consistent

variable (hp : p.Consistent)
include hp

theorem nodup_vars_termAt (hd : (entries.map (·.column)).Nodup)
    (hr : ∀ e ∈ entries, e.column < p.tableau.columns.length) :
    ((entries.map p.termAt).map (·.var)).Nodup := by
  rw [← hp.length_vars] at hr
  rw [List.map_map, List.nodup_map_iff_inj_on (hd.of_map _)]
  intro a ha b hb hab
  apply List.inj_on_of_nodup_map hd ha hb
  simp only [Function.comp_apply] at hab
  rw [var_termAt (hr a ha), var_termAt (hr b hb)] at hab
  exact (hp.handles_nodup .var).getElem_inj_iff.mp hab

theorem terms_ofTerms_termAt (hd : (entries.map (·.column)).Nodup)
    (hr : ∀ e ∈ entries, e.column < p.tableau.columns.length)
    (hz : ∀ e ∈ entries, (e.coefficient == 0) = false) :
    (Linear.ofTerms (entries.map p.termAt)).terms = entries.map p.termAt := by
  apply Linear.terms_ofTerms_distinct (hp.nodup_vars_termAt hd hr)
  rw [List.forall_mem_map]
  exact hz

theorem termOf_of_lt {e : Entry} (he : e.column < p.tableau.columns.length) :
    p.termOf e = .ok (p.termAt e) := termOf_eq (hp.length_vars ▸ he)

theorem termsOf_linear {c : Constraint} {i : Nat} (hi : p.indexOf c = .ok i) {r : Row}
    (hr : p.tableau.rows[i]? = some r) :
    ∃ l, p.linear c = .ok l ∧ Linear.termsOf l = r.entries.map p.termAt := by
  have he := hp.sound.entries r (List.mem_of_getElem? hr)
  simp only [linear, entriesOf_eq hi hr, Outcome.bind_ok]
  cases hrow : r.entries with
  | nil => exact ⟨none, rfl, rfl⟩
  | cons e entries =>
    have hm : r.entries.mapM p.termOf = .ok (r.entries.map p.termAt) :=
      Outcome.mapM_eq_ok fun e hm => hp.termOf_of_lt (he.inRange e hm)
    have ht := hp.terms_ofTerms_termAt he.distinct he.inRange he.nonzero
    rw [hrow] at hm ht
    exact ⟨some (.ofTerms ((e :: entries).map p.termAt)), by simp only [hm]; rfl, ht⟩

omit hp in
theorem mem_priceEntries {e : Entry} :
    e ∈ p.priceEntries ↔ (∃ c, p.tableau.columns[e.column]? = some c ∧
      c.objective = e.coefficient) ∧ (e.coefficient == 0) = false := by
  rw [priceEntries, Entry.stored, List.mem_filter, mem_dense, Tableau.objective]
  simp [bne]

omit hp in
theorem priceEntries_nodup : (p.priceEntries.map (·.column)).Nodup := by
  have hd : ((dense 0 p.tableau.objective).map (·.column)).Nodup := by
    rw [columns_dense]
    exact List.nodup_range'
  exact (List.filter_sublist.map _).nodup hd

omit hp in
theorem lt_of_mem_priceEntries {e : Entry} (he : e ∈ p.priceEntries) :
    e.column < p.tableau.columns.length := by
  obtain ⟨⟨c, hc, -⟩, -⟩ := mem_priceEntries.mp he
  exact (List.getElem?_eq_some_iff.mp hc).1

theorem terms_objectiveForm : p.objectiveForm.terms = p.priceEntries.map p.termAt :=
  hp.terms_ofTerms_termAt priceEntries_nodup (fun _ => lt_of_mem_priceEntries)
    fun _ he => (mem_priceEntries.mp he).2

theorem objectiveLinear_eq :
    p.objectiveLinear = .ok (if p.objectiveForm.isEmpty then none else some p.objectiveForm) := by
  have hm : p.objectiveTerms = .ok (p.priceEntries.map p.termAt) :=
    Outcome.mapM_eq_ok fun e he => hp.termOf_of_lt (lt_of_mem_priceEntries he)
  simp only [objectiveLinear, hm]
  rfl

theorem coefficient?_objectiveForm {i : Nat} {v : Variable} (hv : p.vars[i]? = some v) {c : Column}
    (hc : p.tableau.columns[i]? = some c) :
    p.objectiveForm.coefficient? v = if c.objective == 0 then none else some c.objective := by
  apply Option.ext
  intro x
  have hmem := Linear.mem_terms (l := p.objectiveForm) (t := ⟨x, v⟩)
  rw [← hmem, hp.terms_objectiveForm, List.mem_map]
  obtain ⟨hi, rfl⟩ := List.getElem?_eq_some_iff.mp hv
  constructor
  · rintro ⟨e, he, ht⟩
    have hlt : e.column < p.vars.length := hp.length_vars ▸ lt_of_mem_priceEntries he
    have hcol : e.column = i := by
      apply (hp.handles_nodup .var).getElem_inj_iff.mp
      exact (var_termAt hlt).symm.trans (congrArg Term.var ht)
    obtain ⟨⟨d, hd, hprice⟩, hz⟩ := mem_priceEntries.mp he
    rw [hcol, hc, Option.some.injEq] at hd
    rw [hd, hprice, hz]
    exact congrArg some (congrArg Term.coefficient ht)
  · intro hx
    split at hx
    · cases hx
    · rename_i hz
      cases hx
      have he : (⟨i, c.objective⟩ : Entry) ∈ p.priceEntries :=
        mem_priceEntries.mpr ⟨⟨c, hc, rfl⟩, by simpa using hz⟩
      refine ⟨_, he, ?_⟩
      have hvar : (p.termAt ⟨i, c.objective⟩).var = p.vars[i] := var_termAt hi
      rw [← hvar]
      rfl

end Consistent

end Problem

end LinearProgram
