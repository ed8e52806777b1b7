import LinearProgram.Proofs.Document.Copying
import LinearProgram.Proofs.Document.Rereading

namespace LinearProgram

theorem JsonForm.SideReadFor.isNaN {x y : Option Float} (h : SideReadFor x y) :
    y.any Float.isNaN = false := by
  cases h with
  | none => rfl
  | infinite h => rfl
  | finite h hy => exact Double.isNaN_reread hy

theorem Bound.ReadFor.hasNaN {a b : Bound} (h : a.ReadFor b) : b.hasNaN = false := by
  rw [Bound.hasNaN, h.lower.isNaN, h.upper.isNaN]
  rfl

theorem VariableRecord.ReadFor.number {r s : VariableRecord} (h : r.ReadFor s) :
    s.objective.isNaN = false := by
  have hobjective := h.objective
  split at hobjective
  · rw [hobjective]
    exact Double.isNaN_zero
  · exact Double.isNaN_reread hobjective

namespace ConstraintRecord.ReadFor

variable {r s : ConstraintRecord} (h : r.ReadFor s)
include h

theorem known : s.terms.map (·.1) = r.terms.map (·.1) :=
  map_eq_of_forall₂ h.terms fun _ _ ht => ht.1

theorem numbers : ∀ t ∈ s.terms, t.2.isNaN = false := by
  intro t ht
  obtain ⟨u, -, hu⟩ := exists_mem_of_forall₂ h.terms ht
  exact Double.isNaN_reread hu.2

end ConstraintRecord.ReadFor

theorem Linear.isNaN_tally {x y : Float} (hx : x.isNaN = false) (h : tally none x = some y) :
    y.isNaN = false := by
  unfold tally at h
  split at h
  · cases h
  · rename_i hzero
    have hsum : (none : Option Float).getD 0 + x = x := Double.zero_add (Bool.not_eq_true _ ▸ hzero)
    rw [hsum, if_neg hzero] at h
    cases h
    exact hx

theorem ConstraintRecord.summable_of_nodup {r : ConstraintRecord}
    (hn : (r.terms.map (·.1)).Nodup) (ht : ∀ t ∈ r.terms, t.2.isNaN = false) : r.Summable := by
  intro name x hx
  have hnames : ∀ t ∈ r.terms.filter (·.1 = name), t.1 = name := fun t hm =>
    of_decide_eq_true (List.mem_filter.mp hm).2
  have hdistinct : ((r.terms.filter (·.1 = name)).map (·.1)).Nodup :=
    (List.filter_sublist.map _).nodup hn
  have hnumbers : ∀ t ∈ r.terms.filter (·.1 = name), t.2.isNaN = false := fun t hm =>
    ht t (List.mem_filter.mp hm).1
  unfold sum? at hx
  match hterms : r.terms.filter (·.1 = name) with
  | [] =>
    rw [hterms] at hx
    cases hx
  | [t] =>
    rw [hterms] at hx hnumbers
    exact Linear.isNaN_tally (hnumbers t List.mem_cons_self) hx
  | t :: u :: rest =>
    rw [hterms] at hnames hdistinct
    have ht' := hnames t List.mem_cons_self
    have hu := hnames u (List.mem_cons_of_mem t List.mem_cons_self)
    simp [ht', hu] at hdistinct

namespace Problem

variable {p q : Problem} {d e : Document}

theorem Admits.readFor (h : q.Admits d) (hr : d.ReadFor e) : q.Admits e := by
  have hvars : e.vars.map (·.name) = d.vars.map (·.name) :=
    map_eq_of_forall₂ hr.vars fun _ _ hs => hs.name
  have hconstraints : e.constraints.map (·.name) = d.constraints.map (·.name) :=
    map_eq_of_forall₂ hr.constraints fun _ _ hs => hs.name
  refine ⟨?_, hvars ▸ h.varsDistinct, ?_, hconstraints ▸ h.constraintsDistinct, hr.name ▸ h.title,
    hr.objectiveName ▸ h.objectiveTitle⟩
  · intro s hs
    obtain ⟨r, hmem, hread⟩ := exists_mem_of_forall₂ hr.vars hs
    exact ⟨hread.name ▸ (h.vars r hmem).name, fun _ => hread.bound.hasNaN, hread.number⟩
  · intro s hs
    obtain ⟨r, hmem, hread⟩ := exists_mem_of_forall₂ hr.constraints hs
    refine ⟨hread.name ▸ (h.constraints r hmem).name, hread.bound.hasNaN, fun t ht => ⟨?_, ?_⟩⟩
    · have hname : t.1 ∈ r.terms.map (·.1) := hread.known ▸ List.mem_map_of_mem ht
      obtain ⟨u, hu, he⟩ := List.mem_map.mp hname
      rw [hvars, ← he]
      exact ((h.constraints r hmem).terms u hu).1
    · exact hread.numbers t ht

theorem Consistent.summable_readFor (hp : p.Consistent) (hr : p.description.ReadFor e) :
    ∀ s ∈ e.constraints, s.Summable := by
  intro s hs
  obtain ⟨r, hmem, hread⟩ := exists_mem_of_forall₂ hr.constraints hs
  obtain ⟨row, hrow, rfl⟩ := List.mem_map.mp hmem
  refine ConstraintRecord.summable_of_nodup ?_ hread.numbers
  have hproper := hp.proper_of_row hrow
  have hknown : (row.record (p.tableau.names .var)).terms.map (·.1) =
      (row.entries.map (·.column)).map fun i => (p.tableau.names .var).getD i "" := by
    rw [Row.record, List.map_map, List.map_map]
    rfl
  rw [hread.known, hknown]
  refine hproper.distinct.map_on fun i hi j hj he => ?_
  obtain ⟨a, ha, rfl⟩ := List.mem_map.mp hi
  obtain ⟨b, hb, rfl⟩ := List.mem_map.mp hj
  rw [List.getD_eq_getElem _ _ (hproper.inRange a ha),
    List.getD_eq_getElem _ _ (hproper.inRange b hb)] at he
  exact (hp.lists .var).distinct.getElem_inj_iff.mp he

/-- What has been saved can be loaded, unless a coefficient is infinite. Then its text is refused as
malformed. -/
theorem loaded_of_reachable (h : p.Reachable) {tableau : Tableau} {id : ProblemId}
    {fresh : Problem} (hfresh : ofTableau tableau id = .ok fresh) :
    ∃ d, p.toDocument = .ok d ∧
      ((∀ x ∈ d.coefficients, x.isFinite = true) → ∃ e created q,
        Document.ofJson d.toJson = .ok e ∧ appendDocument e fresh = .ok created q) ∧
      ((∃ x ∈ d.coefficients, x.isFinite = false) →
        Document.ofJson d.toJson = Outcome.refuse (.malformed .text)) := by
  have hp := h.consistent
  refine ⟨p.description, hp.toDocument_eq, fun hfinite => ?_, Document.ofJson_of_infinite⟩
  obtain ⟨e, he, hread⟩ := Document.ofJson_of_finite hfinite
  have hblank := blank_of_fresh hfresh
  have hroom (kind : EntityKind) : (fresh.table kind).size + (p.table kind).size ≤
      Table.capacity := by
    have hempty : (fresh.table kind).size = 0 := by
      rw [hblank.table kind]
      rfl
    have hcap := h.inCapacity kind
    omega
  have hroomVars : fresh.columns.size + e.vars.length ≤ Table.capacity := by
    rw [← hread.vars.length_eq, description, List.length_map, ← hp.size_columns]
    exact hroom .var
  have hroomRows : fresh.rows.size + e.constraints.length ≤ Table.capacity := by
    rw [← hread.constraints.length_eq, description, List.length_map, ← hp.size_rows]
    exact hroom .constraint
  obtain ⟨created, q, hrun, -⟩ := (consistent_of_fresh hfresh).appendDocument_eq
    ((hp.admits_description hblank).readFor hread) hroomVars hroomRows (hp.summable_readFor hread)
  exact ⟨e, created, q, he, hrun⟩

theorem loaded_of_thinned : thinned.Reachable ∧ ofTableau .empty ⟨1⟩ = .ok (new ⟨1⟩) ∧
    ∃ d, thinned.toDocument = .ok d ∧
      ((∀ x ∈ d.coefficients, x.isFinite = true) → ∃ e created q,
        Document.ofJson d.toJson = .ok e ∧ appendDocument e (new ⟨1⟩) = .ok created q) ∧
      ((∃ x ∈ d.coefficients, x.isFinite = false) →
        Document.ofJson d.toJson = Outcome.refuse (.malformed .text)) :=
  ⟨reachable_thinned, rfl, @loaded_of_reachable _ reachable_thinned .empty ⟨1⟩ _ rfl⟩

def overflowing : Problem :=
  let x : Variable := ⟨⟨0⟩, ⟨0, 0⟩⟩
  (Operation.setObjective (some (.ofTerms [⟨1e308, x⟩, ⟨1e308, x⟩]))).after <|
    (Operation.addVariable "x" .real).after (.new ⟨0⟩)

theorem reachable_overflowing : overflowing.Reachable := by
  refine .step _ (.step _ (reachable_new ⟨0⟩) ?_) ?_
  all_goals decide +kernel

theorem infinite_overflowing : ∃ x ∈ overflowing.description.coefficients, x.isFinite = false := by
  decide +kernel

theorem loading_not_total : ¬ ∀ p : Problem, p.Reachable → ∀ fresh : Problem,
    (∃ tableau id, ofTableau tableau id = .ok fresh) →
      ∃ d e created q, p.toDocument = .ok d ∧ Document.ofJson d.toJson = .ok e ∧
        appendDocument e fresh = .ok created q := by
  intro h
  obtain ⟨d, e, created, q, hd, he, -⟩ :=
    h overflowing reachable_overflowing (new ⟨1⟩) ⟨.empty, ⟨1⟩, rfl⟩
  rw [reachable_overflowing.consistent.toDocument_eq] at hd
  have hdocument : overflowing.description = d := Except.ok.inj hd
  rw [← hdocument, Document.ofJson_of_infinite infinite_overflowing] at he
  cases he

end Problem

end LinearProgram
