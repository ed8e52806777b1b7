import LinearProgram.Proofs.Problem.Retirement

namespace LinearProgram.Problem

variable {p q r : Problem} {kind : EntityKind} {c : Constraint} {v : Variable} {l : Option Linear}
  {row : Row} {column : Column} {change : Change} {allowed : Change → Prop} {m n : Nat}

def HasRow (p : Problem) (c : Constraint) (row : Row) : Prop :=
  ∃ i : Nat, p.constraints[i]? = some c ∧ p.tableau.rows[i]? = some row

def HasColumn (p : Problem) (v : Variable) (column : Column) : Prop :=
  ∃ i : Nat, p.vars[i]? = some v ∧ p.tableau.columns[i]? = some column

def termsAt (p : Problem) (row : Row) : List Term := row.entries.map p.termAt

section Reading

theorem Consistent.length_constraints (hp : p.Consistent) :
    p.constraints.length = p.tableau.rows.length :=
  (length_handles p .constraint).trans hp.size_rows

theorem Consistent.hasRow (hp : p.Consistent) (hc : c ∈ p.constraints) : ∃ row, p.HasRow c row := by
  obtain ⟨i, hi⟩ := List.mem_iff_getElem?.mp hc
  have hlt : i < p.tableau.rows.length := by
    rw [← hp.length_constraints]
    exact (List.getElem?_eq_some_iff.mp hi).1
  exact ⟨_, i, hi, List.getElem?_eq_getElem hlt⟩

theorem Consistent.hasRow_withRow (hp : p.Consistent) (row : Row) :
    (p.withRow row).HasRow (p.nextHandle .constraint) row := by
  refine ⟨p.constraints.length, ?_, ?_⟩
  · rw [constraints_withRow, List.getElem?_concat_length]
  · rw [hp.length_constraints]
    exact List.getElem?_concat_length

theorem HasColumn.mem (h : p.HasColumn v column) : v ∈ p.vars := by
  obtain ⟨i, hi, -⟩ := h
  exact List.mem_of_getElem? hi

theorem HasRow.proper (h : p.HasRow c row) (hp : p.Consistent) :
    Entry.Proper p.vars.length row.entries := by
  obtain ⟨i, -, hr⟩ := h
  rw [hp.length_vars]
  exact hp.sound.entries row (List.mem_of_getElem? hr)

theorem HasRow.live (h : p.HasRow c row) (hp : p.Consistent) {t : Term} (ht : t ∈ p.termsAt row) :
    t.var ∈ p.vars := by
  obtain ⟨e, he, rfl⟩ := List.mem_map.mp ht
  rw [var_termAt ((h.proper hp).inRange e he)]
  exact List.getElem_mem _

theorem HasRow.linear_eq (h : p.HasRow c row) (hp : p.Consistent) :
    ∃ l, p.linear c = .ok l ∧ Linear.termsOf l = p.termsAt row ∧ (l = none ↔ p.termsAt row = []) ∧
      p.isEmpty c = .ok (p.termsAt row).isEmpty := by
  obtain ⟨i, hc, hr⟩ := h
  have hi := hp.indexOf_eq_ok_iff.mpr hc
  obtain ⟨l, hl, hterms⟩ := hp.termsOf_linear hi hr
  refine ⟨l, hl, hterms, ?_, ?_⟩
  · rw [termsAt, List.map_eq_nil_iff]
    constructor
    · rintro rfl
      exact List.map_eq_nil_iff.mp hterms.symm
    · intro hnil
      simp only [linear, entriesOf_eq hi hr, hnil, Outcome.bind_ok, Outcome.pure_eq_ok] at hl
      exact (Except.ok.inj hl).symm
  · simp only [isEmpty, entriesOf_eq hi hr, Outcome.bind_ok, Outcome.pure_eq_ok, termsAt,
      List.isEmpty_map]

theorem Consistent.linear_of_mem (hp : p.Consistent) (hc : c ∈ p.constraints) :
    ∃ l, p.linear c = .ok l ∧ ∀ t ∈ Linear.termsOf l, t.var ∈ p.vars := by
  obtain ⟨row, hrow⟩ := hp.hasRow hc
  obtain ⟨l, hl, hterms, -⟩ := hrow.linear_eq hp
  refine ⟨l, hl, ?_⟩
  rw [hterms]
  exact fun t ht => hrow.live hp ht

theorem termAt_eq {e : Entry} (hv : p.vars[e.column]? = some v) :
    p.termAt e = ⟨e.coefficient, v⟩ := by
  rw [termAt, List.getD_eq_getElem?_getD, hv, Option.getD_some]

theorem termAt_entryOf {t : Term} (ht : t.var ∈ p.vars) : p.termAt (p.entryOf t) = t := by
  have hlt : (p.entryOf t).column < p.vars.length := List.idxOf_lt_length_of_mem ht
  have hvar : (p.termAt (p.entryOf t)).var = t.var := by
    rw [var_termAt hlt]
    exact List.getElem_idxOf _
  obtain ⟨x, v⟩ := t
  exact congrArg (Term.mk x) hvar

theorem map_termAt_rowOf (hl : p.Takes l) : (p.rowOf l).map p.termAt = Linear.termsOf l := by
  rw [rowOf, List.map_map]
  conv_rhs => rw [← List.map_id (Linear.termsOf l)]
  exact List.map_congr_left fun t ht => termAt_entryOf (hl t ht).2

end Reading

section Moving

theorem Consistent.ne_index (hp : p.Consistent) {g h : Handle kind} {tenant : Tenant}
    (hh : h ∈ p.handles kind) (ht : (p.table kind).tenant? h.key = some tenant) {i : Nat}
    (hi : (p.handles kind)[i]? = some g) (hne : g ≠ h) : i ≠ tenant.index := by
  rintro rfl
  rw [hp.idxOf_of_tenant hh ht, List.getElem?_eq_getElem (List.idxOf_lt_length_of_mem hh),
    List.getElem_idxOf, Option.some.injEq] at hi
  exact hne hi.symm

theorem HasRow.rerowed (h : p.HasRow c row) (i : Nat) (f : Row → Row) :
    (p.revised (p.tableau.rerowed i f)).HasRow c row ∨
      p.constraints[i]? = some c ∧ (p.revised (p.tableau.rerowed i f)).HasRow c (f row) := by
  obtain ⟨j, hc, hrow⟩ := h
  by_cases hij : i = j
  · subst hij
    exact .inr ⟨hc, i, hc, by simp [Problem.revised, Tableau.rerowed, hrow]⟩
  · exact .inl ⟨j, hc, by simp [Problem.revised, Tableau.rerowed, hrow, hij]⟩

theorem HasRow.termsAt_kept (h : p.HasRow c row) (hp : p.Consistent) {vs : List Variable}
    (hvars : q.vars = p.vars ++ vs) {row' : Row} (he : row'.entries = row.entries) :
    q.termsAt row' = (p.termsAt row).filter (·.var ∈ q.vars) := by
  have hkept : (p.termsAt row).filter (·.var ∈ q.vars) = p.termsAt row := by
    rw [List.filter_eq_self]
    intro t ht
    rw [decide_eq_true_eq, hvars]
    exact List.mem_append_left _ (h.live hp ht)
  rw [hkept, termsAt, he]
  refine List.map_congr_left fun e hm => ?_
  have hlt : e.column < p.vars.length := (h.proper hp).inRange e hm
  have hlt' : e.column < q.vars.length := by
    rw [hvars, List.length_append]
    omega
  have hvar : (q.termAt e).var = (p.termAt e).var := by
    rw [var_termAt hlt, var_termAt hlt']
    simp only [hvars, List.getElem_append_left hlt]
  exact congrArg (Term.mk e.coefficient) hvar

theorem HasRow.termsAt_withoutColumn (h : p.HasRow c row) (hp : p.Consistent) {i : Nat}
    (hvars : q.vars = p.vars.eraseIdx i) :
    q.termsAt (row.withoutColumn i) = (p.termsAt row).filter (·.var ∈ q.vars) := by
  have hnodup := hp.handles_nodup .var
  rw [termsAt, termsAt, Row.withoutColumn, Entry.without_eq, List.map_map, List.filter_map]
  -- the entries of the column are the terms whose variable is gone: no variable has two columns
  have hfilter : row.entries.filter (·.column ≠ i) =
      row.entries.filter ((fun t => decide (t.var ∈ q.vars)) ∘ p.termAt) := by
    refine List.filter_congr fun e he => ?_
    have hlt := (h.proper hp).inRange e he
    rw [Function.comp_apply, var_termAt hlt, decide_eq_decide, hvars, List.mem_eraseIdx_iff_getElem]
    constructor
    · intro hne
      exact ⟨e.column, hlt, hne, rfl⟩
    · rintro ⟨j, hj, hne, hv⟩ he
      exact hne ((hnodup.getElem_inj_iff.mp hv).trans he)
  rw [← hfilter]
  refine List.map_congr_left fun e he => ?_
  obtain ⟨he, hne⟩ := List.mem_filter.mp he
  have hlt := (h.proper hp).inRange e he
  have hv := List.getElem?_eq_getElem hlt
  have hmoved : q.vars[(e.moved i).column]? = some p.vars[e.column] := by
    rw [hvars, Entry.moved_column, Table.eraseIdx_moved p.vars (by simpa using hne), hv]
  rw [Function.comp_apply, termAt_eq hmoved, termAt_eq hv, Entry.moved_coefficient]

theorem Step.hasRow (hp : p.Consistent) (hs : Step change p q) (h : p.HasRow c row)
    (he : change ≠ .entries c) (hr : change ≠ .removal .constraint c) :
    ∃ row', q.HasRow c row' ∧ q.termsAt row' = (p.termsAt row).filter (·.var ∈ q.vars) := by
  have hkept {vs : List Variable} (hvars : q.vars = p.vars ++ vs)
      (hrow : ∃ row', q.HasRow c row' ∧ row'.entries = row.entries) :
      ∃ row', q.HasRow c row' ∧ q.termsAt row' = (p.termsAt row).filter (·.var ∈ q.vars) := by
    obtain ⟨row', hrow', hentries⟩ := hrow
    exact ⟨row', hrow', h.termsAt_kept hp hvars hentries⟩
  have hsame (hvars : q.vars = p.vars) := @hkept [] (by rw [hvars, List.append_nil])
  cases hs with
  | column => exact hkept (vars_withColumn _ _) ⟨row, h, rfl⟩
  | row =>
    obtain ⟨i, hc, hrow⟩ := h
    refine hsame rfl ⟨row, ⟨i, ?_, ?_⟩, rfl⟩
    · have hi := (List.getElem?_eq_some_iff.mp hc).1
      rw [constraints_withRow, List.getElem?_append_left hi]
      exact hc
    · have hi := (List.getElem?_eq_some_iff.mp hrow).1
      exact (List.getElem?_append_left hi).trans hrow
  | @bound _ kind g b =>
    refine hsame rfl ?_
    cases kind with
    | var => exact ⟨row, h, rfl⟩
    | constraint =>
      obtain hq | ⟨-, hq⟩ := h.rerowed _ _
      · exact ⟨row, hq, rfl⟩
      · exact ⟨_, hq, rfl⟩
  | @entries _ g l hg hl =>
    refine hsame rfl ?_
    obtain hq | ⟨hi, -⟩ := h.rerowed _ _
    · exact ⟨row, hq, rfl⟩
    · have hat : p.constraints[p.constraints.idxOf g]? = some g :=
        hp.indexOf_eq_ok_iff.mp (hp.indexOf_of_mem hg)
      rw [hat, Option.some.injEq] at hi
      exact absurd (congrArg Change.entries hi) he
  | @removal _ kind g tenant hh ht =>
    cases kind with
    | var =>
      refine ⟨row.withoutColumn tenant.index, ?_,
        h.termsAt_withoutColumn hp (handles_without p g tenant)⟩
      obtain ⟨i, hc, hrow⟩ := h
      refine ⟨i, hc, ?_⟩
      change (p.tableau.rows.map (·.withoutColumn tenant.index))[i]? = _
      rw [List.getElem?_map, hrow]
      rfl
    | constraint =>
      refine hsame rfl ⟨row, ?_, rfl⟩
      obtain ⟨i, hc, hrow⟩ := h
      have hne : i ≠ tenant.index := hp.ne_index hh ht hc fun hcg => hr (by rw [hcg])
      refine ⟨if tenant.index < i then i - 1 else i, ?_, ?_⟩
      · rw [Problem.constraints, handles_without]
        exact (Table.eraseIdx_moved _ hne).trans hc
      · exact (Table.eraseIdx_moved _ hne).trans hrow
  | _ => exact hsame rfl ⟨row, h, rfl⟩

theorem Steps.hasRow (hp : p.Consistent) (hs : Steps allowed p n q)
    (ha : ∀ change, allowed change → change ≠ .entries c ∧ change ≠ .removal .constraint c)
    (hn : n < Table.generations) (h : p.HasRow c row) :
    ∃ row', q.HasRow c row' ∧ q.termsAt row' = (p.termsAt row).filter (·.var ∈ q.vars) := by
  induction hs with
  | refl => exact ⟨row, h, h.termsAt_kept hp (List.append_nil _).symm rfl⟩
  | @tail n q r change hs' hc hstep ih =>
    have hq := hs'.consistent hp
    obtain ⟨row₁, hrow₁, hterms₁⟩ := ih (by omega)
    obtain ⟨row₂, hrow₂, hterms₂⟩ := hstep.hasRow hq hrow₁ (ha _ hc).1 (ha _ hc).2
    refine ⟨row₂, hrow₂, ?_⟩
    rw [hterms₂, hterms₁, List.filter_filter]
    refine List.filter_congr fun t ht => ?_
    -- a variable that went does not come back, so filtering twice is filtering by what is left
    have hback : t.var ∈ r.vars → t.var ∈ q.vars :=
      hs'.live_between hp (.single hc hstep) (by omega) (h.live hp ht)
    rw [← Bool.decide_and, decide_eq_decide]
    exact ⟨fun h => h.1, fun h => ⟨h, hback h⟩⟩

end Moving

section Prices

def Priced (p : Problem) (f : Variable → Float) : Prop :=
  ∀ v column, p.HasColumn v column → column.objective = f v

variable {f : Variable → Float}

theorem hasColumn_recolumned (i : Nat) {g : Column → Column}
    (hg : ∀ d, (g d).objective = d.objective)
    (h : (p.revised (p.tableau.recolumned i g)).HasColumn v column) :
    ∃ d, p.HasColumn v d ∧ column.objective = d.objective := by
  obtain ⟨j, hv, hcolumn⟩ := h
  change (p.tableau.columns.modify i g)[j]? = some column at hcolumn
  rw [List.getElem?_modify] at hcolumn
  obtain ⟨d, hd, rfl⟩ := Option.map_eq_some_iff.mp hcolumn
  refine ⟨d, ⟨j, hv, hd⟩, ?_⟩
  split
  · exact hg d
  · rfl

theorem Step.column_cases (hp : p.Consistent) (hs : Step change p q) (hc : change ≠ .prices)
    (h : q.HasColumn v column) :
    (∃ d, p.HasColumn v d ∧ column.objective = d.objective) ∨
      v ∉ p.vars ∧ column.objective = 0 := by
  have hq := hs.consistent hp
  cases hs with
  | @column _ c hroom hn hb ho =>
    obtain ⟨i, hv, hcolumn⟩ := h
    change (p.withColumn c).vars[i]? = some v at hv
    change (p.tableau.columns ++ [c])[i]? = some column at hcolumn
    rw [vars_withColumn] at hv
    by_cases hi : i < p.vars.length
    · rw [List.getElem?_append_left hi] at hv
      rw [List.getElem?_append_left (hp.length_vars ▸ hi)] at hcolumn
      exact .inl ⟨column, ⟨i, hv, hcolumn⟩, rfl⟩
    · have hnext : p.nextHandle .var ∉ p.vars := by
        have hd := hq.handles_nodup .var
        change (p.withColumn c).vars.Nodup at hd
        rw [vars_withColumn, List.nodup_append'] at hd
        exact fun hm => hd.2.2 hm List.mem_cons_self
      have hlen := hp.length_vars
      rw [List.getElem?_append_right (by omega)] at hv hcolumn
      obtain rfl := List.mem_singleton.mp (List.mem_of_getElem? hv)
      obtain rfl := List.mem_singleton.mp (List.mem_of_getElem? hcolumn)
      exact .inr ⟨hnext, ho⟩
  | @bound _ kind g b =>
    cases kind with
    | constraint => exact .inl ⟨column, h, rfl⟩
    | var =>
      exact .inl (hasColumn_recolumned (g := fun d => { d with bound := b }) _ (fun _ => rfl) h)
  | type type hg => exact .inl (hasColumn_recolumned _ (fun d => d.typed_objective type) h)
  | prices => exact absurd rfl hc
  | @removal _ kind g tenant hh ht =>
    cases kind with
    | constraint => exact .inl ⟨column, h, rfl⟩
    | var =>
      obtain ⟨i, hv, hcolumn⟩ := h
      change ((p.without g tenant).handles .var)[i]? = some v at hv
      change (p.tableau.columns.eraseIdx tenant.index)[i]? = some column at hcolumn
      rw [handles_without, List.getElem?_eraseIdx] at hv
      rw [List.getElem?_eraseIdx] at hcolumn
      split at hv
      · rename_i hi
        rw [if_pos hi] at hcolumn
        exact .inl ⟨column, ⟨i, hv, hcolumn⟩, rfl⟩
      · rename_i hi
        rw [if_neg hi] at hcolumn
        exact .inl ⟨column, ⟨i + 1, hv, hcolumn⟩, rfl⟩
  | _ => exact .inl ⟨column, h, rfl⟩

theorem Steps.priced (hp : p.Consistent) (hs : Steps allowed p n q)
    (ha : ∀ change, allowed change → change ≠ .prices) (hn : n < Table.generations)
    (h : p.Priced f) (hz : ∀ v ∉ p.vars, f v = 0) : q.Priced f := by
  induction hs with
  | refl => exact h
  | @tail n q r change hs' hc hstep ih =>
    have hq := hs'.consistent hp
    intro v column hv
    obtain ⟨d, hd, he⟩ | ⟨hv', he⟩ := hstep.column_cases hq (ha _ hc) hv
    · rw [he]
      exact ih (by omega) v d hd
    -- a new column has no share; its variable is none of the first, as they do not come back
    · rw [he, hz]
      intro hm
      exact hv' (hs'.live_between hp (.single hc hstep) hn hm hv.mem)

theorem Priced.objective_eq (hp : p.Consistent) (h : p.Priced f) :
    p.tableau.objective = p.vars.map f := by
  apply List.ext_getElem?
  intro i
  rw [Tableau.objective, List.getElem?_map, List.getElem?_map]
  have hlen := hp.length_vars
  by_cases hi : i < p.vars.length
  · have hv := List.getElem?_eq_getElem hi
    have hc := List.getElem?_eq_getElem (hlen ▸ hi)
    rw [hv, hc, Option.map_some, Option.map_some, h _ _ ⟨i, hv, hc⟩]
  · rw [List.getElem?_eq_none (by omega), List.getElem?_eq_none (by omega)]
    rfl

theorem map_termAt_dense (f : Variable → Float) {before vs : List Variable}
    (hv : p.vars = before ++ vs) :
    (Entry.stored (dense before.length (vs.map f))).map p.termAt =
      vs.filterMap fun v => if f v == 0 then none else some ⟨f v, v⟩ := by
  induction vs generalizing before with
  | nil => rfl
  | cons v vs ih =>
    have hnext := @ih (before ++ [v]) (by rw [hv, List.append_assoc]; rfl)
    rw [List.length_append, List.length_singleton] at hnext
    have hat : p.termAt ⟨before.length, f v⟩ = ⟨f v, v⟩ := termAt_eq (by simp [hv])
    rw [List.map_cons, dense, List.filterMap_cons, ← hnext]
    by_cases hz : (f v == 0) = true
    · simp [Entry.stored, bne, hz]
    · simp [Entry.stored, bne, hz, hat]

theorem Priced.terms_objectiveForm (hp : p.Consistent) (h : p.Priced f) :
    p.objectiveForm.terms = p.vars.filterMap fun v => if f v == 0 then none else some ⟨f v, v⟩ := by
  rw [hp.terms_objectiveForm, priceEntries, h.objective_eq hp]
  exact map_termAt_dense f (List.nil_append _).symm

theorem withObjective_getElem? {columns : List Column} {xs : List Float} {i : Nat} {x : Float}
    (hc : columns[i]? = some column) (hx : xs[i]? = some x) :
    (Tableau.withObjective columns xs)[i]? = some { column with objective := x } := by
  induction columns generalizing xs i with
  | nil => cases hc
  | cons c columns ih =>
    cases xs with
    | nil => cases hx
    | cons y xs =>
      cases i with
      | zero =>
        cases hc
        cases hx
        rfl
      | succ i => exact ih hc hx

theorem priced_revised (hp : p.Consistent) :
    (p.revised (p.tableau.priced (p.vars.map f))).Priced f := by
  rintro v column ⟨i, hv, hcolumn⟩
  change p.vars[i]? = some v at hv
  change (Tableau.withObjective p.tableau.columns (p.vars.map f))[i]? = some column at hcolumn
  have hlt : i < p.tableau.columns.length := by
    rw [← hp.length_vars]
    exact (List.getElem?_eq_some_iff.mp hv).1
  have hx : (p.vars.map f)[i]? = some (f v) := by rw [List.getElem?_map, hv, Option.map_some]
  rw [withObjective_getElem? (List.getElem?_eq_getElem hlt) hx] at hcolumn
  cases hcolumn
  rfl

theorem term_of_share (l : Option Linear) (v : Variable) :
    (if Linear.share l v == 0 then none else some (⟨Linear.share l v, v⟩ : Term)) =
      (l.bind (·.coefficient? v)).map (⟨·, v⟩) := by
  cases h : l.bind (·.coefficient? v) with
  | none =>
    rw [Linear.share, h]
    rfl
  | some x =>
    obtain ⟨m, rfl, hx⟩ := Option.bind_eq_some_iff.mp h
    have hz : (x == 0) = false :=
      Linear.nonzero_of_mem_terms (t := ⟨x, v⟩) (Linear.mem_terms.mpr hx)
    simp [Linear.share, hx, hz]

end Prices

end LinearProgram.Problem
