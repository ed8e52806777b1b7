import LinearProgram.Proofs.Document.Appending
import LinearProgram.Proofs.Document.Description
import LinearProgram.Proofs.Document.Equality
import LinearProgram.Proofs.Problem.Runs

namespace LinearProgram

def Column.copied (c : Column) : Column := c.record.column.priced c.record.objective

namespace Column

variable {c : Column}

theorem copied_of_binary (h : c.type = .binary) :
    c.copied = ⟨c.name, .binary, .integer, Double.plain (Double.plain c.objective)⟩ := by
  have hcolumn : c.record.column = (fresh c.name).typed .binary := if_pos h
  rw [copied, hcolumn]
  rfl

theorem copied_of_ne_binary (h : c.type ≠ .binary) :
    c.copied = ⟨c.name, c.bound, c.kind, Double.plain (Double.plain c.objective)⟩ := by
  have hcolumn : c.record.column = { (fresh c.name).typed c.type with bound := c.bound } :=
    if_neg h
  have hkind : ((fresh c.name).typed c.type).kind = c.kind := by
    unfold type at h ⊢
    cases hk : c.kind with
    | continuous => rfl
    | integer =>
      simp only [hk] at h
      have hb : ¬ (c.bound == .binary) = true := fun hb => h (if_pos hb)
      simp only [if_neg hb]
      rfl
  rw [copied, hcolumn]
  simp only [priced, hkind, typed_name]
  rfl

theorem record_copied (hb : c.bound.hasNaN = false) (ho : c.objective.isNaN = false) :
    (c.copied.record == c.record) = true := by
  have hprice : (Double.plain (Double.plain (Double.plain c.objective)) ==
      Double.plain c.objective) = true := by
    rw [Double.plain_plain, Double.plain_plain]
    exact Double.beq_self_iff.mpr (Double.isNaN_plain ho)
  by_cases h : c.type = .binary
  · rw [copied_of_binary h]
    refine VariableRecord.beq_iff.mpr ⟨rfl, h.symm, ?_, hprice⟩
    change (Bound.binary == c.bound) = true
    rw [Bound.beq_comm]
    unfold type at h
    split at h
    · cases h
    · by_contra hne
      rw [if_neg hne] at h
      cases h
  · rw [copied_of_ne_binary h]
    exact VariableRecord.beq_iff.mpr ⟨rfl, rfl, Bound.beq_refl hb, hprice⟩

end Column

namespace Problem

variable {p q : Problem}

structure Blank (p : Problem) : Prop where
  columns : p.tableau.columns = []
  rows : p.tableau.rows = []
  table : ∀ kind, p.table kind = .empty
  name : p.name = none
  objectiveName : p.objectiveName = none

theorem blank_of_fresh {tableau : Tableau} {id : ProblemId} (h : ofTableau tableau id = .ok p) :
    p.Blank := by
  unfold ofTableau at h
  split at h
  · rename_i he
    simp only [Bool.and_eq_true, List.isEmpty_iff] at he
    cases h
    exact ⟨he.1, he.2, fun kind => by cases kind <;> rfl, rfl, rfl⟩
  · cases h

theorem Blank.handles (h : p.Blank) (kind : EntityKind) : p.handles kind = [] := by
  rw [Problem.handles, h.table]
  rfl

section Rows

variable {names : List String} {r : Row} (hq : q.Consistent) (hn : names.Nodup)
  (hl : names.length = q.vars.length) (hr : Entry.Proper names.length r.entries)
include hq hn hl hr

theorem terms_formOf_record :
    (formOf (names.zip q.vars) (r.record names).terms).terms = r.entries.map q.termAt := by
  have hterm : ∀ e ∈ r.entries,
      termFor? (names.zip q.vars) (names.getD e.column "", e.coefficient) = some (q.termAt e) := by
    intro e he
    have hi : e.column < names.length := hr.inRange e he
    have hv : e.column < q.vars.length := hl ▸ hi
    have hz : (names.getD e.column "", q.vars[e.column]) ∈ names.zip q.vars := by
      rw [List.mem_iff_getElem?]
      refine ⟨e.column, ?_⟩
      simp [List.getElem?_zip_eq_some, List.getElem?_eq_getElem hi, List.getElem?_eq_getElem hv]
    have hfst : ((names.zip q.vars).map Prod.fst).Nodup := by
      rwa [List.map_fst_zip (Nat.le_of_eq hl)]
    rw [termFor?, (Registry.lookup_eq_some_iff hfst).mpr hz, ← var_termAt hv]
    rfl
  have hfilter : (r.record names).terms.filterMap (termFor? (names.zip q.vars)) =
      r.entries.map q.termAt := by
    rw [Row.record, List.filterMap_map, ← List.filterMap_eq_map]
    exact List.filterMap_congr hterm
  rw [formOf_eq, hfilter]
  have hcount : names.length = q.tableau.columns.length := hl.trans hq.length_vars
  exact hq.terms_ofTerms_termAt hr.distinct (hcount ▸ hr.inRange) hr.nonzero

theorem rowFor_record : q.rowFor (names.zip q.vars) (r.record names) = r := by
  have hrow : q.rowOf (some (formOf (names.zip q.vars) (r.record names).terms)) = r.entries := by
    have ht : Linear.termsOf (some (formOf (names.zip q.vars) (r.record names).terms)) =
      r.entries.map q.termAt := terms_formOf_record hq hn hl hr
    rw [rowOf, ht, List.map_map]
    refine (List.map_congr_left fun e he => ?_).trans (List.map_id r.entries)
    have hv : e.column < q.vars.length := hl ▸ hr.inRange e he
    have hidx : q.vars.idxOf (q.termAt e).var = e.column := by
      rw [var_termAt hv]
      exact (hq.handles_nodup .var).idxOf_getElem _ hv
    rw [Function.comp_apply, entryOf, hidx]
    rfl
  rw [rowFor, hrow]
  rfl

end Rows

namespace Consistent

variable (hp : p.Consistent)
include hp

theorem length_names_var : (p.tableau.names .var).length = p.vars.length :=
  hp.length_names .var

theorem proper_of_row {r : Row} (hr : r ∈ p.tableau.rows) :
    Entry.Proper (p.tableau.names .var).length r.entries := by
  rw [Tableau.names, List.length_map]
  exact hp.sound.entries r hr

theorem nameable_of_names (kind : EntityKind) {name : String} (hn : name ∈ p.tableau.names kind) :
    Nameable [] name :=
  ⟨fun he => (hp.lists kind).nonempty (he ▸ hn), List.not_mem_nil, hp.sound.short kind name hn⟩

omit hp in
theorem names_description (p : Problem) :
    p.description.vars.map (·.name) = p.tableau.names .var ∧
      p.description.constraints.map (·.name) = p.tableau.names .constraint := by
  simp [description, Tableau.names, Column.record, Row.record, Function.comp_def]

theorem admits_description (hblank : q.Blank) : q.Admits p.description := by
  obtain ⟨hvars, hconstraints⟩ := names_description p
  have hq (kind : EntityKind) : q.tableau.names kind = [] := by
    cases kind <;> simp [Tableau.names, hblank.columns, hblank.rows]
  refine ⟨?_, ?_, ?_, ?_, hp.title, hp.objectiveTitle⟩
  · rw [hq, description, List.forall_mem_map]
    intro c hc
    exact ⟨hp.nameable_of_names .var (List.mem_map_of_mem hc),
      fun _ => hp.sound.bound_column hc, Double.isNaN_plain (hp.sound.shares c hc)⟩
  · rw [hvars]
    exact (hp.lists .var).distinct
  · rw [hq, hvars, description, List.forall_mem_map]
    intro r hr
    refine ⟨hp.nameable_of_names .constraint (List.mem_map_of_mem hr),
      hp.sound.bound_row hr, ?_⟩
    rw [Row.record, List.forall_mem_map]
    intro e he
    have hproper := hp.proper_of_row hr
    have hi := hproper.inRange e he
    refine ⟨?_, hproper.number e he⟩
    rw [List.getD_eq_getElem?_getD, List.getElem?_eq_getElem hi]
    exact List.getElem_mem hi
  · rw [hconstraints]
    exact (hp.lists .constraint).distinct

theorem summable_description : ∀ r ∈ p.description.constraints, r.Summable := by
  rw [description, List.forall_mem_map]
  intro r hr
  have hproper := hp.proper_of_row hr
  have hl := hp.length_names_var
  have hdistinct := (hp.lists .var).distinct
  have hterms := terms_formOf_record hp hdistinct hl hproper
  have hn : Naming ((p.tableau.names .var).zip p.vars) := by
    constructor
    · rwa [List.map_fst_zip (Nat.le_of_eq hl)]
    · rw [List.map_snd_zip (Nat.le_of_eq hl.symm)]
      exact hp.handles_nodup .var
  rw [← hn.takes_formOf_iff (p := p)]
  · intro t ht
    change t ∈ (formOf _ _).terms at ht
    rw [hterms, List.mem_map] at ht
    obtain ⟨e, he, rfl⟩ := ht
    have hv : e.column < p.vars.length := hl ▸ hproper.inRange e he
    refine ⟨hproper.number e he, ?_⟩
    rw [var_termAt hv]
    exact List.getElem_mem hv
  · rintro ⟨name, v⟩ hm
    exact (List.of_mem_zip hm).2
  · rw [List.map_fst_zip (Nat.le_of_eq hl), Row.record, List.forall_mem_map]
    intro e he
    have hi := hproper.inRange e he
    rw [List.getD_eq_getElem?_getD, List.getElem?_eq_getElem hi]
    exact List.getElem_mem hi

theorem mapM_nameOf (kind : EntityKind) :
    (p.handles kind).mapM p.nameOf = .ok (p.tableau.names kind) := by
  apply Outcome.mapM_eq_ok_of_getElem? (hp.length_names kind).symm
  intro i h name hh hn
  exact hp.nameOf_eq (hp.indexOf_eq_ok_iff.mpr hh) hn

end Consistent

theorem Appended.beq_description {fresh : Problem} {created : List Variable} (hp : p.Consistent)
    (hblank : fresh.Blank) (h : Appended fresh p.description created q) :
    created = q.vars ∧ q.tableau.names .var = p.tableau.names .var ∧
      (q.description == p.description) = true := by
  have hcreated : q.vars = created := by
    have hvars := h.vars
    rwa [show fresh.vars = [] from hblank.handles .var, List.nil_append] at hvars
  have hcolumns : q.tableau.columns = p.tableau.columns.map (·.copied) := by
    rw [h.columns, hblank.columns, description, List.map_nil, List.nil_append, List.map_map]
    rfl
  have hnames : q.tableau.names .var = p.tableau.names .var := by
    rw [Tableau.names, Tableau.names, hcolumns, List.map_map]
    exact List.map_congr_left fun c _ => VariableRecord.column_name c.record
  have hl : (p.tableau.names .var).length = q.vars.length := by
    rw [← hnames]
    exact h.consistent.length_names_var
  have hrows : q.tableau.rows = p.tableau.rows := by
    rw [h.rows, hblank.rows, List.nil_append, description, List.map_map]
    refine (List.map_congr_left fun r hr => ?_).trans (List.map_id _)
    rw [Function.comp_apply, namedBy, ← hcreated]
    change q.rowFor ((p.description.vars.map (·.name)).zip q.vars) _ = r
    rw [(Consistent.names_description p).1]
    exact rowFor_record h.consistent (hp.lists .var).distinct hl (hp.proper_of_row hr)
  refine ⟨hcreated.symm, hnames, Document.beq_iff.mpr ⟨?_, ?_, ?_, ?_, ?_⟩⟩
  · change q.name = p.name
    rw [h.name, hblank.name]
    change (p.name <|> none) = p.name
    cases p.name <;> rfl
  · change q.objectiveName = p.objectiveName
    rw [h.objectiveName, hblank.objectiveName]
    change (p.objectiveName <|> none) = p.objectiveName
    cases p.objectiveName <;> rfl
  · exact h.direction
  · change (q.tableau.columns.map (·.record) == p.tableau.columns.map (·.record)) = true
    rw [hcolumns, List.map_map]
    apply beq_map
    intro c hc
    exact Column.record_copied (hp.sound.bound_column hc) (hp.sound.shares c hc)
  · change (q.tableau.rows.map _ == p.tableau.rows.map _) = true
    rw [hrows, hnames]
    apply beq_map
    intro r hr
    refine ConstraintRecord.beq_refl (hp.sound.bound_row hr) ?_
    rw [Row.record, List.forall_mem_map]
    exact fun e he => (hp.proper_of_row hr).number e he

/-- Every problem has a document, and a fresh problem takes it and has the same document then. -/
theorem copy_of_reachable (h : p.Reachable) {tableau : Tableau} {id : ProblemId} {fresh : Problem}
    (hfresh : ofTableau tableau id = .ok fresh) :
    ∃ d created q d', p.toDocument = .ok d ∧ appendDocument d fresh = .ok created q ∧
      created = q.vars ∧ created.mapM q.nameOf = p.vars.mapM p.nameOf ∧
        q.toDocument = .ok d' ∧ (d' == d) = true ∧ (q.description == p.description) = true := by
  have hp := h.consistent
  have hblank := blank_of_fresh hfresh
  have hroomVars : fresh.columns.size + p.description.vars.length ≤ Table.capacity := by
    have hcap : p.columns.size ≤ Table.capacity := h.inCapacity .var
    have hempty : fresh.columns = .empty := hblank.table .var
    rw [hempty, description, List.length_map, ← hp.size_columns]
    change 0 + p.columns.size ≤ Table.capacity
    omega
  have hroomRows : fresh.rows.size + p.description.constraints.length ≤ Table.capacity := by
    have hcap : p.rows.size ≤ Table.capacity := h.inCapacity .constraint
    have hempty : fresh.rows = .empty := hblank.table .constraint
    rw [hempty, description, List.length_map, ← hp.size_rows]
    change 0 + p.rows.size ≤ Table.capacity
    omega
  obtain ⟨created, q, hrun, hq⟩ := (consistent_of_fresh hfresh).appendDocument_eq
    (hp.admits_description hblank) hroomVars hroomRows hp.summable_description
  obtain ⟨hcreated, hnames, hbeq⟩ := hq.beq_description hp hblank
  refine ⟨p.description, created, q, q.description, hp.toDocument_eq, hrun, hcreated, ?_,
    hq.consistent.toDocument_eq, hbeq, hbeq⟩
  have hnameOf : q.vars.mapM q.nameOf = .ok (q.tableau.names .var) := hq.consistent.mapM_nameOf .var
  rw [hcreated, hnameOf, hnames]
  exact (hp.mapM_nameOf .var).symm

theorem copy_of_thinned : thinned.Reachable ∧ ofTableau .empty ⟨1⟩ = .ok (new ⟨1⟩) ∧
    ∃ d created q d', thinned.toDocument = .ok d ∧ appendDocument d (new ⟨1⟩) = .ok created q ∧
      created = q.vars ∧ created.mapM q.nameOf = thinned.vars.mapM thinned.nameOf ∧
        q.toDocument = .ok d' ∧ (d' == d) = true ∧
          (q.description == thinned.description) = true :=
  ⟨reachable_thinned, rfl, @copy_of_reachable _ reachable_thinned .empty ⟨1⟩ _ rfl⟩

end Problem

end LinearProgram
