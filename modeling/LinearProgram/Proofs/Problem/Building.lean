import LinearProgram.Proofs.Problem.Changed
import LinearProgram.Proofs.Problem.Resolving

namespace LinearProgram

theorem Tableau.modify_length_append {α : Type} (l : List α) (a : α) (f : α → α) :
    (l ++ [a]).modify l.length f = l ++ [f a] :=
  List.modifyTailIdx_add _ 0 l [a]

namespace Problem

variable {α β : Type} {kind : EntityKind} {p : Problem}

def Refuses (x : Edit α) (p : Problem) : Prop := ∃ e, x p = .error (.refused e) p

section Parts

variable {read : Problem → Outcome α} {a : α}

theorem ask_ok (h : read p = .ok a) : ask read p = .ok a p := by
  simp only [ask, h]

theorem ask_passed (h : read p = .ok a) (f : α → Edit β) : (ask read >>= f) p = f a p := by
  simp only [Edit.bind_apply, ask, h]

theorem ask_refused {e : Failure Error} (h : read p = .error e) (f : α → Edit β) :
    (ask read >>= f) p = .error e p := by
  simp only [Edit.bind_apply, ask, h]

theorem refuses_or_of_ask (h : Outcome.Unbroken (read p)) {f : α → Edit β} {Q : Prop}
    (hf : ∀ a, read p = .ok a → ask read p = .ok a p → Refuses (f a) p ∨ Q) :
    Refuses (ask read >>= f) p ∨ Q := by
  obtain ⟨a, ha⟩ | ⟨e, he⟩ := h.cases
  · refine (hf a ha (ask_ok ha)).imp_left ?_
    rintro ⟨e, he⟩
    exact ⟨e, by rw [Edit.bind_apply, ask_ok ha, ← he]⟩
  · exact .inl ⟨e, by simp only [Edit.bind_apply, ask, he]⟩

theorem onTableau_ok {edit : Tableau.Edit α} {t : Tableau} (h : edit p.tableau = .ok a t) :
    onTableau edit p = .ok a { p with tableau := t } := by
  simp only [onTableau, h]

theorem onTable_ok (kind : EntityKind) {edit : Table.Edit α} {t : Table}
    (h : edit (p.table kind) = .ok a t) :
    onTable kind edit p = .ok a (p.withTable kind t) := by
  simp only [onTable, h]

end Parts

theorem applyType_eq {i : Nat} (hi : i < p.tableau.columns.length) (type : VarType) :
    applyType i type p = .ok () { p with tableau := p.tableau.recolumned i (·.typed type) } := by
  cases type with
  | integer => exact onTableau_ok (Tableau.modifyColumn_eq hi _)
  | real => exact onTableau_ok (Tableau.modifyColumn_eq hi _)
  | binary =>
    have hk : onTableau (Tableau.setColumnKind i .integer) p = .ok () { p with
        tableau := p.tableau.recolumned i fun c => { c with kind := .integer } } :=
      onTableau_ok (Tableau.modifyColumn_eq hi _)
    have hi' :
        i < (p.tableau.recolumned i fun c => { c with kind := .integer }).columns.length := by
      simpa [Tableau.recolumned] using hi
    rw [applyType, Edit.bind_apply, hk]
    refine (onTableau_ok (Tableau.modifyColumn_eq hi' _)).trans ?_
    simp only [Tableau.recolumned, List.modify_modify_eq]
    rfl

theorem setBoundAt_eq {i : Nat} (hi : i < (p.tableau.names kind).length) (b : Bound) :
    setBoundAt kind i b p = .ok () { p with tableau := p.tableau.rebounded b kind i } := by
  cases kind with
  | var => exact onTableau_ok (Tableau.modifyColumn_eq (by simpa [Tableau.names] using hi) _)
  | constraint => exact onTableau_ok (Tableau.modifyRow_eq (by simpa [Tableau.names] using hi) _)

theorem deleteAt_eq {i : Nat} (hi : i < (p.tableau.names kind).length) :
    deleteAt kind i p = .ok () { p with tableau := p.tableau.without kind i } := by
  cases kind with
  | var => exact onTableau_ok (Tableau.deleteColumns_singleton (by simpa [Tableau.names] using hi))
  | constraint =>
    exact onTableau_ok (Tableau.deleteRows_singleton (by simpa [Tableau.names] using hi))

theorem setDirection_eq (direction : Direction) :
    setDirection direction p = .ok () (p.revised { p.tableau with direction := direction }) := rfl

namespace Consistent

variable (hp : p.Consistent)
include hp

theorem addVariable_eq {name : String} (hn : Nameable (p.tableau.names .var) name)
    (type : VarType) :
    addVariable name type p =
      .ok (p.nextHandle .var) (p.withColumn ((Column.fresh name).typed type)) := by
  have hcheck : p.checkName .var name = .ok () := hp.checkName_eq_ok_iff.mpr hn
  have hl : p.columns.order.length = p.tableau.columns.length := hp.size_columns
  let t : Tableau := { p.tableau with columns := p.tableau.columns ++ [Column.fresh name] }
  let q : Problem := { p with tableau := t, columns := p.columns.entered name }
  have hask : ask (·.checkName .var name) p = .ok () p := ask_ok hcheck
  have hadd : onTableau (Tableau.addColumn name) p =
      .ok p.tableau.columns.length { p with tableau := t } := onTableau_ok rfl
  have hkey : onTable .var (Table.insert name p.tableau.columns.length) { p with tableau := t } =
      .ok p.columns.nextKey q :=
    onTable_ok .var (hl ▸ (hp.lists .var).insert_eq name)
  have htype : applyType p.tableau.columns.length type q = .ok () { q with
      tableau := t.recolumned p.tableau.columns.length (·.typed type) } :=
    applyType_eq (by simp [q, t]) type
  simp only [addVariable, Edit.bind_apply, hask, hadd, hkey, htype]
  simp only [t, Tableau.recolumned, Tableau.modify_length_append, Problem.withColumn,
    Column.typed_name]
  rfl

theorem addVariable_cases (name : String) (type : VarType) :
    Refuses (addVariable name type) p ∨ Nameable (p.tableau.names .var) name ∧
      addVariable name type p =
        .ok (p.nextHandle .var) (p.withColumn ((Column.fresh name).typed type)) := by
  unfold addVariable
  refine refuses_or_of_ask (p.checkName_unbroken .var name) fun _ hn _ => .inr ?_
  have hname := hp.checkName_eq_ok_iff.mp hn
  exact ⟨hname, hp.addVariable_eq hname type⟩

theorem indexOf_nextHandle (hroom : p.columns.size < Table.capacity) {c : Column}
    (hn : Nameable (p.tableau.names .var) c.name) (hb : c.bound.hasNaN = false)
    (ho : c.objective.isNaN = false) :
    (p.withColumn c).indexOf (p.nextHandle .var) = .ok p.tableau.columns.length := by
  rw [(hp.withColumn hroom hn hb ho).indexOf_eq_ok_iff]
  change (p.withColumn c).vars[p.tableau.columns.length]? = _
  rw [vars_withColumn, ← hp.length_vars, List.getElem?_concat_length]

theorem addInteger_eq (hroom : p.columns.size < Table.capacity) {name : String}
    (hn : Nameable (p.tableau.names .var) name) {b : Bound} (hb : b.hasNaN = false) :
    addInteger name b p = .ok (p.nextHandle .var) (p.withColumn ⟨name, b, .integer, 0⟩) := by
  let q := p.withColumn ((Column.fresh name).typed .integer)
  have hvalid : ask (fun _ => b.validate) p = .ok () p := ask_ok (Bound.validate_eq_ok_iff.mpr hb)
  have hadd : addVariable name .integer p = .ok (p.nextHandle .var) q := hp.addVariable_eq hn _
  have hindex : ask (·.indexOf (p.nextHandle .var)) q = .ok p.tableau.columns.length q :=
    ask_ok (hp.indexOf_nextHandle hroom hn rfl Double.isNaN_zero)
  have hlt : p.tableau.columns.length < q.tableau.columns.length := by
    simp [q, Problem.withColumn, Problem.revised]
  have hset : onTableau (Tableau.setColumnBound p.tableau.columns.length b) q = .ok () { q with
      tableau := q.tableau.recolumned p.tableau.columns.length fun c => { c with bound := b } } :=
    onTableau_ok (Tableau.modifyColumn_eq hlt _)
  simp only [addInteger, Edit.bind_apply, hvalid, hadd, hindex, hset]
  simp only [q, Problem.withColumn, Problem.revised, Tableau.recolumned,
    Tableau.modify_length_append]
  rfl

theorem addInteger_refuses_or (name : String) (b : Bound) :
    Refuses (addInteger name b) p ∨
      Nameable (p.tableau.names .var) name ∧ b.hasNaN = false := by
  unfold addInteger
  refine refuses_or_of_ask b.validate_unbroken fun _ hb _ => ?_
  obtain ⟨e, he⟩ | ⟨hn, -⟩ := hp.addVariable_cases name .integer
  · exact .inl ⟨e, by simp only [Edit.bind_apply, he]⟩
  · exact .inr ⟨hn, Bound.validate_eq_ok_iff.mp hb⟩

theorem addInteger_cases (hroom : p.columns.size < Table.capacity) (name : String) (b : Bound) :
    Refuses (addInteger name b) p ∨
      (Nameable (p.tableau.names .var) name ∧ b.hasNaN = false) ∧
        addInteger name b p =
          .ok (p.nextHandle .var) (p.withColumn ⟨name, b, .integer, 0⟩) :=
  (hp.addInteger_refuses_or name b).imp_right fun hok =>
    ⟨hok, hp.addInteger_eq hroom hok.1 hok.2⟩

theorem addConstraint_eq {name : String} (hn : Nameable (p.tableau.names .constraint) name)
    {l : Option Linear} (hl : p.Takes l) {b : Bound} (hb : b.hasNaN = false) :
    addConstraint name l b p = .ok (p.nextHandle .constraint) (p.withRow ⟨name, b, p.rowOf l⟩) := by
  have hcheck : p.checkName .constraint name = .ok () := hp.checkName_eq_ok_iff.mpr hn
  have hlen : p.rows.order.length = p.tableau.rows.length := hp.size_rows
  let t : Tableau := { p.tableau with
    rows := p.tableau.rows ++ [⟨name, b, Entry.stored (p.rowOf l)⟩] }
  let q : Problem := { p with tableau := t, rows := p.rows.entered name }
  have hname : ask (·.checkName .constraint name) p = .ok () p := ask_ok hcheck
  have hrow : ask (·.resolve l) p = .ok (p.rowOf l) p := ask_ok (hp.resolve_of_takes hl)
  have hbound : ask (fun _ => b.validate) p = .ok () p := ask_ok (Bound.validate_eq_ok_iff.mpr hb)
  have hadd : onTableau (Tableau.addRow name (p.rowOf l) b) p =
      .ok p.tableau.rows.length { p with tableau := t } := onTableau_ok rfl
  have hkey : onTable .constraint (Table.insert name p.tableau.rows.length)
      { p with tableau := t } = .ok p.rows.nextKey q :=
    onTable_ok .constraint (hlen ▸ (hp.lists .constraint).insert_eq name)
  simp only [addConstraint, Edit.bind_apply, hname, hrow, hbound, hadd, hkey]
  simp only [q, t, (hp.rowOf_proper hl).stored_eq]
  rfl

theorem addConstraint_cases (name : String) (l : Option Linear) (b : Bound) :
    Refuses (addConstraint name l b) p ∨
      (Nameable (p.tableau.names .constraint) name ∧ p.Takes l ∧ b.hasNaN = false) ∧
        addConstraint name l b p =
          .ok (p.nextHandle .constraint) (p.withRow ⟨name, b, p.rowOf l⟩) := by
  unfold addConstraint
  refine refuses_or_of_ask (p.checkName_unbroken .constraint name) fun _ hn _ => ?_
  refine refuses_or_of_ask (p.resolve_unbroken l) fun entries hl _ => ?_
  refine refuses_or_of_ask b.validate_unbroken fun _ hb _ => .inr ?_
  have hname := hp.checkName_eq_ok_iff.mp hn
  have htakes := (hp.resolve_eq_ok_iff.mp hl).1
  have hbound := Bound.validate_eq_ok_iff.mp hb
  exact ⟨⟨hname, htakes, hbound⟩, hp.addConstraint_eq hname htakes hbound⟩

theorem setVariableType_eq {v : Variable} (hv : v ∈ p.vars) (type : VarType) :
    setVariableType v type p =
      .ok () (p.revised (p.tableau.recolumned (p.vars.idxOf v) (·.typed type))) := by
  have hi : p.indexOf v = .ok (p.vars.idxOf v) := hp.indexOf_of_mem hv
  have hlt : p.vars.idxOf v < p.tableau.columns.length := by
    rw [← hp.length_vars]
    exact List.idxOf_lt_length_of_mem hv
  have hindex : ask (·.indexOf v) p = .ok (p.vars.idxOf v) p := ask_ok hi
  simp only [setVariableType, Edit.bind_apply, hindex, applyType_eq hlt]
  rfl

theorem setVariableType_cases (v : Variable) (type : VarType) :
    Refuses (setVariableType v type) p ∨ v ∈ p.vars ∧
      setVariableType v type p =
        .ok () (p.revised (p.tableau.recolumned (p.vars.idxOf v) (·.typed type))) := by
  unfold setVariableType
  refine refuses_or_of_ask (p.indexOf_unbroken v) fun i hi _ => .inr ?_
  have hv := (hp.indexOf_eq_ok_iff_idxOf.mp hi).1
  exact ⟨hv, hp.setVariableType_eq hv type⟩

theorem setBound_eq {h : Handle kind} (hh : h ∈ p.handles kind) {b : Bound}
    (hb : b.hasNaN = false) :
    setBound h b p =
      .ok () (p.revised (p.tableau.rebounded b kind ((p.handles kind).idxOf h))) := by
  have hindex : ask (·.indexOf h) p = .ok ((p.handles kind).idxOf h) p :=
    ask_ok (hp.indexOf_of_mem hh)
  have hvalid : ask (fun _ => b.validate) p = .ok () p := ask_ok (Bound.validate_eq_ok_iff.mpr hb)
  have hset := setBoundAt_eq (hp.index_lt (hp.indexOf_of_mem hh)) b
  simp only [setBound, Edit.bind_apply, hindex, hvalid, hset]
  rfl

theorem setBound_cases (h : Handle kind) (b : Bound) :
    Refuses (setBound h b) p ∨ (h ∈ p.handles kind ∧ b.hasNaN = false) ∧
      setBound h b p =
        .ok () (p.revised (p.tableau.rebounded b kind ((p.handles kind).idxOf h))) := by
  unfold setBound
  refine refuses_or_of_ask (p.indexOf_unbroken h) fun i hi _ => ?_
  refine refuses_or_of_ask b.validate_unbroken fun _ hb _ => .inr ?_
  have hh := (hp.indexOf_eq_ok_iff_idxOf.mp hi).1
  have hbound := Bound.validate_eq_ok_iff.mp hb
  exact ⟨⟨hh, hbound⟩, hp.setBound_eq hh hbound⟩

theorem bound_unbroken (h : Handle kind) : Outcome.Unbroken (p.bound h) := by
  refine Outcome.Unbroken.bind (p.indexOf_unbroken h) fun i hi => ?_
  have hlt : i < (p.tableau.bounds kind).length := by
    rw [Tableau.length_bounds]
    exact hp.index_lt hi
  rw [boundAt_eq (List.getElem?_eq_getElem hlt)]
  exact Outcome.unbroken_ok _

theorem setLinear_eq {c : Constraint} (hc : c ∈ p.constraints) {l : Option Linear}
    (hl : p.Takes l) :
    setLinear c l p = .ok () (p.revised (p.tableau.rerowed (p.constraints.idxOf c)
      fun r => { r with entries := p.rowOf l })) := by
  have hi : p.indexOf c = .ok (p.constraints.idxOf c) := hp.indexOf_of_mem hc
  have hlt : p.constraints.idxOf c < p.tableau.rows.length := by
    simpa [Tableau.names] using hp.index_lt hi
  have hindex : ask (·.indexOf c) p = .ok (p.constraints.idxOf c) p := ask_ok hi
  have hrow : ask (·.resolve l) p = .ok (p.rowOf l) p := ask_ok (hp.resolve_of_takes hl)
  have hset : onTableau (Tableau.setEntries (p.constraints.idxOf c) (p.rowOf l)) p = .ok () { p with
      tableau := p.tableau.rerowed (p.constraints.idxOf c)
        fun r => { r with entries := Entry.stored (p.rowOf l) } } :=
    onTableau_ok (Tableau.modifyRow_eq hlt _)
  rw [(hp.rowOf_proper hl).stored_eq] at hset
  simp only [setLinear, Edit.bind_apply, hindex, hrow, hset]
  rfl

theorem setLinear_cases (c : Constraint) (l : Option Linear) :
    Refuses (setLinear c l) p ∨ (c ∈ p.constraints ∧ p.Takes l) ∧
      setLinear c l p = .ok () (p.revised (p.tableau.rerowed (p.constraints.idxOf c)
        fun r => { r with entries := p.rowOf l })) := by
  unfold setLinear
  refine refuses_or_of_ask (p.indexOf_unbroken c) fun i hi _ => ?_
  refine refuses_or_of_ask (p.resolve_unbroken l) fun entries hl _ => .inr ?_
  have hc := (hp.indexOf_eq_ok_iff_idxOf.mp hi).1
  have htakes := (hp.resolve_eq_ok_iff.mp hl).1
  exact ⟨⟨hc, htakes⟩, hp.setLinear_eq hc htakes⟩

theorem setObjective_eq {l : Option Linear} (hl : p.Takes l) :
    setObjective l p = .ok () (p.revised (p.tableau.priced (p.vars.map (Linear.share l)))) := by
  have hrow : ask (·.resolve l) p = .ok (p.rowOf l) p := ask_ok (hp.resolve_of_takes hl)
  have hdense : ask (fun p' => spread (p.rowOf l) (List.replicate p'.columns.size 0)) p =
      .ok (p.vars.map (Linear.share l)) p := ask_ok (hp.spread_rowOf hl)
  simp only [setObjective, Edit.bind_apply, hrow, hdense]
  rfl

theorem setObjective_cases (l : Option Linear) :
    Refuses (setObjective l) p ∨ p.Takes l ∧
      setObjective l p = .ok () (p.revised (p.tableau.priced (p.vars.map (Linear.share l)))) := by
  unfold setObjective
  refine refuses_or_of_ask (p.resolve_unbroken l) fun entries hl _ => .inr ?_
  have htakes := (hp.resolve_eq_ok_iff.mp hl).1
  exact ⟨htakes, hp.setObjective_eq htakes⟩

theorem dispose_eq {h : Handle kind} (ho : h.problem = p.id) {tenant : Tenant}
    (ht : (p.table kind).tenant? h.key = some tenant) :
    dispose h p = .ok () (p.without h tenant) := by
  have hown : ask (·.checkOwner h) p = .ok () p := ask_ok (by simp [checkOwner, ho])
  have hindex : (p.table kind).indexOf? h.key = some tenant.index := by
    rw [Table.indexOf?, ht]
    rfl
  let q : Problem := { p with tableau := p.tableau.without kind tenant.index }
  have hdelete : deleteAt kind tenant.index p = .ok () q := deleteAt_eq (hp.tenant_lt ht)
  have hremove : onTable kind (Table.remove h.key) q = .ok (some tenant.index)
      (q.withTable kind ((p.table kind).vacate h.key tenant)) := by
    apply onTable_ok
    have hr := (hp.lists kind).remove_eq h.key
    rw [ht] at hr
    cases kind <;> exact hr
  simp only [dispose, Edit.bind_apply, hown, Edit.get_apply, hindex, hdelete, hremove]
  cases kind <;> rfl

theorem dispose_cases (h : Handle kind) :
    Refuses (dispose h) p ∨ (h ∉ p.handles kind ∧ dispose h p = .ok () p) ∨
      ∃ tenant, (p.table kind).tenant? h.key = some tenant ∧ h ∈ p.handles kind ∧
        dispose h p = .ok () (p.without h tenant) := by
  unfold dispose
  refine refuses_or_of_ask (p.checkOwner_unbroken h) fun _ hown hask => .inr ?_
  have ho : h.problem = p.id := by
    by_contra hne
    simp [checkOwner, hne, Outcome.refuseFault, Outcome.refuse] at hown
  cases ht : (p.table kind).tenant? h.key with
  | none =>
    refine .inl ⟨fun hm => ?_, ?_⟩
    · obtain ⟨tenant, htenant⟩ := hp.tenant_of_mem hm
      rw [ht] at htenant
      cases htenant
    · have hindex : (p.table kind).indexOf? h.key = none := by
        rw [Table.indexOf?, ht]
        rfl
      simp only [Edit.bind_apply, hask, Edit.get_apply, hindex, Edit.pure_apply]
  | some tenant => exact .inr ⟨tenant, rfl, hp.mem_of_tenant ho ht, hp.dispose_eq ho ht⟩

omit hp in
theorem accepted_unbroken (status : Status) (values : Option Solution) :
    Outcome.Unbroken (p.accepted status values) := by
  unfold accepted
  split
  · cases values with
    | none => exact Outcome.unbroken_refused _
    | some s =>
      exact (s.validate_unbroken _ _).bind fun _ _ => Outcome.unbroken_ok _
  · exact Outcome.unbroken_ok _

omit hp in
theorem accepted_fits {status : Status} {values solution : Option Solution}
    (h : p.accepted status values = .ok solution) :
    solution.isSome = status.hasSolution ∧ ∀ s ∈ solution, s.Fits p.columns.size p.rows.size := by
  unfold accepted at h
  by_cases hs : status.hasSolution = true
  · rw [if_pos hs] at h
    cases values with
    | none => cases h
    | some s =>
      obtain ⟨⟨⟩, hv, ⟨⟩⟩ := Outcome.bind_eq_ok.mp h
      refine ⟨hs.symm, ?_⟩
      rintro s ⟨⟩
      exact Solution.fits_of_validate hv
  · rw [if_neg hs] at h
    cases h
    exact ⟨by simpa using hs, fun s hm => nomatch hm⟩

theorem recordSolution_cases (status : Status) (values : Option Solution) :
    Refuses (recordSolution status values) p ∨ ∃ solution : Option Solution,
      solution.isSome = status.hasSolution ∧
        (∀ s ∈ solution, s.Fits p.tableau.columns.length p.tableau.rows.length) ∧
        recordSolution status values p =
          .ok () { p with status := status, solution := solution } := by
  unfold recordSolution
  refine refuses_or_of_ask (accepted_unbroken status values) fun solution hs hask => .inr ?_
  obtain ⟨hsome, hfits⟩ := accepted_fits hs
  rw [hp.size_columns, hp.size_rows] at hfits
  exact ⟨solution, hsome, hfits, by simp only [Edit.bind_apply, hask, Edit.modify_apply]⟩

end Consistent

theorem setName_cases (name : Option String) :
    Refuses (setName name) p ∨ checkTitle name = .ok () ∧
      setName name p = .ok () { p with name := name } := by
  unfold setName
  refine refuses_or_of_ask (checkTitle_unbroken name) fun _ hn hask => .inr ⟨hn, ?_⟩
  simp only [Edit.bind_apply, hask, Edit.modify_apply]

theorem setObjectiveName_cases (name : Option String) :
    Refuses (setObjectiveName name) p ∨ checkTitle name = .ok () ∧
      setObjectiveName name p = .ok () { p with objectiveName := name } := by
  unfold setObjectiveName
  refine refuses_or_of_ask (checkTitle_unbroken name) fun _ hn hask => .inr ⟨hn, ?_⟩
  simp only [Edit.bind_apply, hask, Edit.modify_apply]

end Problem

end LinearProgram
