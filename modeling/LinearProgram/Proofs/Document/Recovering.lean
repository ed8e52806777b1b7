import LinearProgram.Proofs.Document.Copying
import LinearProgram.Proofs.Problem.Histories

/-!
What a document tells of a problem that was reached by operations: its whole tableau, with all
numbers as they are. No column stores a negative zero for its share in the objective, so writing
every zero alike loses nothing.
-/

namespace LinearProgram

theorem Linear.plain_share (l : Option Linear) (v : Variable) :
    Double.plain (share l v) = share l v := by
  by_cases ht : ∃ t ∈ termsOf l, t.var = v
  · obtain ⟨t, ht, rfl⟩ := ht
    rw [share_of_mem ht, Double.plain, nonzero_of_mem_termsOf ht]
    rfl
  · rw [share_eq_zero fun t hm htv => ht ⟨t, hm, htv⟩]
    rfl

theorem map_inj_of_mem {α β : Type} {f : α → β} {P : α → Prop}
    (hf : ∀ a b, P a → P b → f a = f b → a = b) {l m : List α} (hl : ∀ a ∈ l, P a)
    (hm : ∀ a ∈ m, P a) (h : l.map f = m.map f) : l = m := by
  induction l generalizing m with
  | nil => exact (List.map_eq_nil_iff.mp h.symm).symm
  | cons a l ih =>
    cases m with
    | nil => cases h
    | cons b m =>
      rw [List.map_cons, List.map_cons, List.cons.injEq] at h
      rw [List.forall_mem_cons] at hl hm
      rw [hf a b hl.1 hm.1 h.1, ih hl.2 hm.2 h.2]

section Records

theorem Column.type_eq_real_iff (c : Column) : c.type = .real ↔ c.kind = .continuous := by
  unfold type
  cases c.kind with
  | continuous => simp
  | integer =>
    cases c.bound == .binary <;> simp

theorem Column.eq_of_record {c d : Column} (hc : Double.plain c.objective = c.objective)
    (hd : Double.plain d.objective = d.objective) (h : c.record = d.record) : c = d := by
  have hkind : c.kind = .continuous ↔ d.kind = .continuous := by
    have htype : c.type = d.type := congrArg VariableRecord.type h
    rw [← c.type_eq_real_iff, ← d.type_eq_real_iff, htype]
  have hprice : c.objective = d.objective := by
    rw [← hc, ← hd]
    exact congrArg VariableRecord.objective h
  obtain ⟨name, bound, kind, objective⟩ := c
  obtain ⟨name', bound', kind', objective'⟩ := d
  cases congrArg VariableRecord.name h
  cases congrArg VariableRecord.bound h
  cases hprice
  cases kind <;> cases kind' <;> simp at hkind ⊢

theorem Row.eq_of_record {names : List String} (hn : names.Nodup) {r s : Row}
    (hr : ∀ e ∈ r.entries, e.column < names.length)
    (hs : ∀ e ∈ s.entries, e.column < names.length)
    (h : r.record names = s.record names) : r = s := by
  have hentries : r.entries = s.entries := by
    refine map_inj_of_mem (fun e e' he he' hee => ?_) hr hs (congrArg ConstraintRecord.terms h)
    obtain ⟨hname, hcoefficient⟩ := Prod.mk.inj hee
    rw [List.getD_eq_getElem _ _ he, List.getD_eq_getElem _ _ he'] at hname
    have hcolumn := hn.getElem_inj_iff.mp hname
    obtain ⟨column, coefficient⟩ := e
    cases hcolumn
    cases hcoefficient
    rfl
  obtain ⟨name, bound, entries⟩ := r
  cases congrArg ConstraintRecord.name h
  cases congrArg ConstraintRecord.bound h
  cases hentries
  rfl

end Records

def Tableau.Plain (t : Tableau) : Prop := ∀ c ∈ t.columns, Double.plain c.objective = c.objective

namespace Problem

variable {p q : Problem} {change : Change} {allowed : Change → Prop} {n : Nat}

theorem plain_recolumned (hp : p.tableau.Plain) (i : Nat) {f : Column → Column}
    (hf : ∀ c, (f c).objective = c.objective) : (p.tableau.recolumned i f).Plain := by
  intro c hc
  obtain hm | ⟨d, hd, rfl⟩ := Tableau.mem_modify hc
  · exact hp c hm
  · rw [hf]
    exact hp d hd

theorem Step.plain (hs : Step change p q) (hp : p.tableau.Plain) : q.tableau.Plain := by
  cases hs with
  | column _ _ _ ho =>
    intro c hc
    rw [withColumn, revised, List.mem_append, List.mem_singleton] at hc
    obtain hc | rfl := hc
    · exact hp c hc
    · rw [ho]
      rfl
  | @bound _ kind _ b =>
    cases kind with
    | var => exact plain_recolumned hp _ fun _ => rfl
    | constraint => exact hp
  | type type hv => exact plain_recolumned hp _ fun c => c.typed_objective type
  | @prices _ l hl =>
    intro c hc
    obtain ⟨d, hd, rfl | ⟨x, hx, rfl⟩⟩ := Tableau.mem_withObjective hc
    · exact hp _ hd
    · obtain ⟨v, -, rfl⟩ := List.mem_map.mp hx
      exact Linear.plain_share l v
  | @removal _ kind _ tenant =>
    cases kind with
    | var => exact fun c hc => hp c (List.mem_of_mem_eraseIdx hc)
    | constraint => exact hp
  | _ => exact hp

theorem Steps.plain (hs : Steps allowed p n q) (hp : p.tableau.Plain) : q.tableau.Plain := by
  induction hs with
  | refl => exact hp
  | tail _ _ hstep ih => exact hstep.plain ih

theorem Reachable.plain (h : p.Reachable) : p.tableau.Plain := by
  induction h with
  | start h =>
    intro c hc
    rw [(blank_of_fresh h).columns] at hc
    cases hc
  | step op hp hroom ih => exact (op.steps hp.consistent hp.inCapacity hroom).plain ih

theorem tableau_eq_of_description (hp : p.Reachable) (hq : q.Reachable)
    (h : p.description = q.description) : p.tableau = q.tableau := by
  have hcolumns : p.tableau.columns = q.tableau.columns :=
    map_inj_of_mem (fun _ _ => Column.eq_of_record) hp.plain hq.plain (congrArg Document.vars h)
  have hnames : q.tableau.names .var = p.tableau.names .var := by
    rw [Tableau.names, Tableau.names, hcolumns]
  have hrows : p.tableau.rows = q.tableau.rows := by
    have hdistinct := (hp.consistent.lists .var).distinct
    have hrecords := congrArg Document.constraints h
    rw [description, description, hnames] at hrecords
    refine map_inj_of_mem (fun _ _ => Row.eq_of_record hdistinct) (fun r hr => ?_)
      (fun r hr => ?_) hrecords
    · exact (hp.consistent.proper_of_row hr).inRange
    · rw [← hnames]
      exact (hq.consistent.proper_of_row hr).inRange
  have hdirection : p.tableau.direction = q.tableau.direction := congrArg Document.direction h
  change Tableau.mk p.tableau.columns p.tableau.rows p.tableau.direction = q.tableau
  rw [hcolumns, hrows, hdirection]

end Problem

end LinearProgram
