import LinearProgram.Proofs.Problem.Frames
import LinearProgram.Proofs.Problem.Membership

namespace LinearProgram

def Document.names (d : Document) : EntityKind → List String
  | .var => d.vars.map (·.name)
  | .constraint => d.constraints.map (·.name)

namespace Operation

def naming (op : Operation) (kind : EntityKind) : List String :=
  match op, kind with
  | addVariable name _, .var => [name]
  | addInteger name _, .var => [name]
  | addConstraint name _ _, .constraint => [name]
  | restore s, .constraint => [s.name]
  | append d, kind => d.names kind
  | load files name, kind =>
    match files.read name >>= Document.ofJson with
    | .ok d => d.names kind
    | .error _ => []
  | _, _ => []

end Operation

namespace Problem

variable {p q : Problem} {kind : EntityKind} {h : Handle kind} {name : String} {c : Change}
  {allowed : Change → Prop} {n : Nat} {d : Document}

section Names

def roster (p : Problem) (kind : EntityKind) : List (Handle kind × String) :=
  (p.handles kind).zip (p.tableau.names kind)

theorem mem_roster {e : Handle kind × String} : e ∈ p.roster kind ↔
    ∃ i : Nat, (p.handles kind)[i]? = some e.1 ∧ (p.tableau.names kind)[i]? = some e.2 := by
  rw [roster, List.mem_iff_getElem?]
  exact exists_congr fun i => List.getElem?_zip_eq_some

theorem Consistent.mem_roster_iff (hp : p.Consistent) :
    (h, name) ∈ p.roster kind ↔ h ∈ p.handles kind ∧ p.nameOf h = .ok name := by
  rw [mem_roster]
  constructor
  · rintro ⟨i, hi, hn⟩
    exact ⟨List.mem_of_getElem? hi, hp.nameOf_eq (hp.indexOf_eq_ok_iff.mpr hi) hn⟩
  · rintro ⟨hh, hname⟩
    have hi := hp.indexOf_of_mem hh
    have hn := List.getElem?_eq_getElem (hp.index_lt hi)
    rw [hp.nameOf_eq hi hn, Except.ok.injEq] at hname
    exact ⟨_, hp.indexOf_eq_ok_iff.mp hi, hname ▸ hn⟩

theorem Consistent.map_fst_roster (hp : p.Consistent) (kind : EntityKind) :
    (p.roster kind).map Prod.fst = p.handles kind :=
  List.map_fst_zip (hp.length_names kind).ge

theorem Consistent.map_snd_roster (hp : p.Consistent) (kind : EntityKind) :
    (p.roster kind).map Prod.snd = p.tableau.names kind :=
  List.map_snd_zip (hp.length_names kind).le

theorem Consistent.mem_names_iff (hp : p.Consistent) :
    name ∈ p.tableau.names kind ↔ ∃ h ∈ p.handles kind, p.nameOf h = .ok name := by
  rw [← hp.map_snd_roster, List.mem_map]
  constructor
  · rintro ⟨⟨h, n⟩, hm, rfl⟩
    exact ⟨h, hp.mem_roster_iff.mp hm⟩
  · rintro ⟨h, hh⟩
    exact ⟨(h, name), hp.mem_roster_iff.mpr hh, rfl⟩

theorem Consistent.checkName_taken (hp : p.Consistent)
    (hn : name = "" ∨ name ∈ p.tableau.names kind) :
    p.checkName kind name = .error (.refused (.duplicateName kind name)) := by
  have ha : ¬ (p.table kind).isNameAvailable name = true := by
    rw [(hp.lists kind).isNameAvailable_iff]
    tauto
  rw [checkName, if_neg ha]
  rfl

theorem Consistent.checkName_long (hp : p.Consistent) (hn : nameLimit < name.utf8ByteSize) :
    p.checkName kind name = .error (.refused (.invalid .nameTooLong)) := by
  have ha : (p.table kind).isNameAvailable name = true := by
    rw [(hp.lists kind).isNameAvailable_iff]
    constructor
    · rintro rfl
      cases hn
    · intro hm
      exact absurd (hp.sound.short kind name hm) (Nat.not_le_of_lt hn)
  rw [checkName, if_pos ha, checkLength, if_pos hn]
  rfl

end Names

section Giving

def Gains (p q : Problem) (names : EntityKind → List String) : Prop :=
  ∀ kind, ∃ more, more <+: names kind ∧ q.tableau.names kind = p.tableau.names kind ++ more

variable {names : EntityKind → List String}

theorem Gains.of_eq (h : ∀ kind, q.tableau.names kind = p.tableau.names kind) : Gains p q names :=
  fun kind => ⟨[], List.nil_prefix, by rw [h, List.append_nil]⟩

theorem Step.names_eq (hs : Step c p q) (hc : c ≠ .column ∧ c ≠ .row) (hr : c.removals = 0)
    (kind : EntityKind) : q.tableau.names kind = p.tableau.names kind := by
  cases hs with
  | column => exact absurd rfl hc.1
  | row => exact absurd rfl hc.2
  | removal => cases hr
  | bound => exact Tableau.names_rebounded _ _ kind
  | type type => exact Tableau.names_recolumned (fun c => c.typed_name type) kind
  | entries =>
    refine Tableau.names_rerowed (fun r => ?_) kind
    rfl
  | prices => exact Tableau.names_priced _ kind
  | _ => cases kind <;> rfl

theorem Step.names_erase (hp : p.Consistent) (hs : Step (.removal kind h) p q) :
    q.tableau.names kind = (p.tableau.names kind).eraseIdx ((p.handles kind).idxOf h) := by
  cases hs with
  | @removal _ _ _ tenant hh ht =>
    rw [← hp.idxOf_of_tenant hh ht]
    exact Tableau.names_without kind _

theorem Step.names_other (hs : Step (.removal kind h) p q) {other : EntityKind}
    (ho : other ≠ kind) : q.tableau.names other = p.tableau.names other := by
  cases hs with
  | removal => exact Tableau.names_without_of_ne ho _

theorem Steps.names_eq (hs : Steps allowed p n q) (ha : ∀ c, allowed c → c ≠ .column ∧ c ≠ .row)
    (hn : n = 0) (kind : EntityKind) : q.tableau.names kind = p.tableau.names kind := by
  induction hs with
  | refl => rfl
  | tail _ hc hstep ih => exact (hstep.names_eq (ha _ hc) (by omega) kind).trans (ih (by omega))

theorem gains_withColumn (p : Problem) (c : Column) (hn : names .var = [c.name]) :
    Gains p (p.withColumn c) names
  | .var => ⟨_, hn ▸ List.prefix_rfl, List.map_append⟩
  | .constraint => ⟨[], List.nil_prefix, (List.append_nil _).symm⟩

theorem gains_withRow (p : Problem) (r : Row) (hn : names .constraint = [r.name]) :
    Gains p (p.withRow r) names
  | .var => ⟨[], List.nil_prefix, (List.append_nil _).symm⟩
  | .constraint => ⟨_, hn ▸ List.prefix_rfl, List.map_append⟩

namespace Consistent

variable (hp : p.Consistent)
include hp

theorem gains_addConstraint (name : String) (l : Option Linear) (b : Bound)
    (hn : names .constraint = [name]) : Gains p (Edit.final (addConstraint name l b) p) names := by
  obtain hr | ⟨-, ha⟩ := hp.addConstraint_cases name l b
  · rw [hr.final]
    exact .of_eq fun _ => rfl
  · rw [Edit.final_ok ha]
    exact gains_withRow p _ hn

theorem names_addConstraints {named : List (String × Variable)} {records : List ConstraintRecord}
    (hroom : (Edit.final (records.forM (addConstraintRecord named)) p).InCapacity) :
    let q := Edit.final (records.forM (addConstraintRecord named)) p
    q.tableau.names .var = p.tableau.names .var ∧
      ∃ more, more <+: records.map (·.name) ∧
        q.tableau.names .constraint = p.tableau.names .constraint ++ more := by
  induction records generalizing p with
  | nil => exact ⟨rfl, [], List.nil_prefix, (List.append_nil _).symm⟩
  | cons r records ih =>
    have hcons : (r :: records).forM (addConstraintRecord named) =
      addConstraintRecord named r >>= fun _ => records.forM (addConstraintRecord named) := rfl
    rw [hcons] at hroom ⊢
    obtain ⟨e, he⟩ | ⟨⟨hn, hl, hb⟩, ha⟩ :=
      hp.addConstraint_cases r.name (some (formOf named r.terms)) r.bound
    · have herr : addConstraintRecord named r p = .error (.refused e) p := by
        simp only [addConstraintRecord, Edit.bind_apply, he]
      rw [Edit.final_bind_error herr]
      exact ⟨rfl, [], List.nil_prefix, (List.append_nil _).symm⟩
    · have hok : addConstraintRecord named r p = .ok () (p.withRow (p.rowFor named r)) := by
        simp only [addConstraintRecord, Edit.bind_apply, ha, Edit.pure_apply, rowFor]
      rw [Edit.final_bind_ok hok] at hroom ⊢
      have hcap := inCapacity_of_grows (Grows.forM (Grows.addConstraintRecord named) records) hroom
      have hnext : (p.withRow (p.rowFor named r)).Consistent :=
        hp.withRow (lt_capacity_of_withRow hcap) hn hb (hp.rowOf_proper hl)
      obtain ⟨hvars, more, hmore, hrows⟩ := ih hnext hroom
      refine ⟨hvars, r.name :: more, List.prefix_cons_inj r.name |>.mpr hmore, hrows.trans ?_⟩
      rw [Tableau.names, Tableau.names, List.append_cons]
      exact congrArg (· ++ more) List.map_append

theorem gains_appendDocument (hcap : p.InCapacity)
    (hroom : (Edit.final (appendDocument d) p).InCapacity) :
    Gains p (Edit.final (appendDocument d) p) d.names := by
  cases hc : p.checkDocument d with
  | error e =>
    rw [Edit.final_error (refused_of_check hc)]
    exact .of_eq fun _ => rfl
  | ok u =>
    have ha := hp.checkDocument_eq_ok_iff.mp hc
    obtain ⟨-, created, q, hrun, hq⟩ | ⟨-, created, e, q, hq⟩ := hp.append_or_stop hcap ha hroom
    · rw [Edit.final_ok hrun]
      rintro (_ | _)
      · refine ⟨_, List.prefix_rfl, ?_⟩
        simp only [Tableau.names, Document.names, hq.columns, List.map_append, List.map_map,
          Function.comp_def, Column.priced, VariableRecord.column_name]
      · refine ⟨_, List.prefix_rfl, ?_⟩
        simp only [Tableau.names, Document.names, hq.rows, List.map_append, List.map_map]
        rfl
    -- all variables came in before the addition of constraints stopped
    · have hfinal := Edit.final_error hq.stopped
      rw [Edit.final_error hq.run] at hroom ⊢
      have hrows := hq.started.consistent.names_addConstraints (by rwa [hfinal])
      rw [hfinal] at hrows
      obtain ⟨hvars, more, hmore, hrows⟩ := hrows
      rintro (_ | _)
      · refine ⟨_, List.prefix_rfl, hvars.trans ?_⟩
        simp only [tableau_withVarsOf, Tableau.names, Document.names, List.map_append, List.map_map,
          Function.comp_def, VariableRecord.column_name]
      · exact ⟨more, hmore, hrows.trans (by rw [tableau_withVarsOf]; rfl)⟩

end Consistent

end Giving

end Problem

namespace Operation

open Problem

variable {op : Operation} {p : Problem}

theorem gains_after (hp : p.Consistent) (hcap : p.InCapacity) (hroom : (op.after p).InCapacity)
    (hd : op.disposals p = 0) : Gains p (op.after p) op.naming := by
  have hsteps := op.steps hp hcap hroom
  have hspared (hc : ∀ c, op.changes c → c ≠ .column ∧ c ≠ .row) : Gains p (op.after p) op.naming :=
    .of_eq (hsteps.names_eq hc hd)
  clear hsteps
  cases op with
  | addVariable name type =>
    rw [after, perform, Edit.final_bind_pure]
    obtain hr | ⟨-, ha⟩ := hp.addVariable_cases name type
    · rw [hr.final]
      exact .of_eq fun _ => rfl
    · rw [Edit.final_ok ha]
      exact gains_withColumn p _ (by rw [Column.typed_name]; rfl)
  | addInteger name b =>
    rw [after, perform, Edit.final_bind_pure] at hroom ⊢
    obtain hr | hlt := hp.refuses_or_lt_of_addInteger hroom
    · rw [hr.final]
      exact .of_eq fun _ => rfl
    · obtain hr | ⟨-, ha⟩ := hp.addInteger_cases hlt name b
      · rw [hr.final]
        exact .of_eq fun _ => rfl
      · rw [Edit.final_ok ha]
        exact gains_withColumn p _ rfl
  | addConstraint name l b =>
    rw [after, perform, Edit.final_bind_pure]
    exact hp.gains_addConstraint name l b rfl
  | restore s =>
    rw [after, perform, Edit.final_bind_pure]
    exact hp.gains_addConstraint s.name _ s.bound rfl
  | append d =>
    rw [after, perform, Edit.final_bind_pure] at hroom ⊢
    exact hp.gains_appendDocument hcap hroom
  | load files name =>
    rw [after, perform, Edit.final_bind_pure, final_load] at hroom ⊢
    cases hd : files.read name >>= Document.ofJson with
    | error e => exact .of_eq fun _ => rfl
    | ok d =>
      have hnaming : (load files name).naming = d.names := by
        funext kind
        simp only [naming, hd]
      simp only [hd] at hroom
      rw [hnaming]
      exact hp.gains_appendDocument hcap hroom
  | restoreBounds kind s =>
    refine hspared ?_
    rintro _ ⟨g, -, rfl⟩
    simp
  | _ =>
    refine hspared ?_
    rintro _ rfl
    simp

theorem entities_cases (hp : p.Consistent) (hcap : p.InCapacity) (hroom : (op.after p).InCapacity)
    (kind : EntityKind) :
    (∃ g, op.removed? p = some ⟨kind, g⟩ ∧
        (op.after p).handles kind = (p.handles kind).eraseIdx ((p.handles kind).idxOf g) ∧
        (op.after p).tableau.names kind =
          (p.tableau.names kind).eraseIdx ((p.handles kind).idxOf g)) ∨
      (∀ g, op.removed? p ≠ some ⟨kind, g⟩) ∧ ∃ added more, more <+: op.naming kind ∧
        (op.after p).handles kind = p.handles kind ++ added ∧
        (op.after p).tableau.names kind = p.tableau.names kind ++ more := by
  cases hr : op.removed? p with
  | none =>
    have hzero : op.disposals p = 0 := by
      rw [disposals_eq, hr]
      rfl
    obtain ⟨more, hmore, hnames⟩ := gains_after hp hcap hroom hzero kind
    obtain ⟨added, hadded⟩ := (op.steps hp hcap hroom).handles_append hzero kind
    exact .inr ⟨nofun, added, more, hmore, hadded, hnames⟩
  | some target =>
    obtain ⟨other, g⟩ := target
    obtain ⟨hd, hg⟩ := (removed?_eq_some_iff hp).mp hr
    have hstep := op.step_of_disposed hp hg hd
    by_cases ho : kind = other
    · subst ho
      exact .inl ⟨g, rfl, hstep.handles_erase hp, hstep.names_erase hp⟩
    · refine .inr ⟨?_, [], [], List.nil_prefix, ?_, ?_⟩
      · rintro g' ⟨⟩
        exact ho rfl
      · rw [hstep.handles_other ho, List.append_nil]
      · rw [hstep.names_other ho, List.append_nil]

end Operation

end LinearProgram
