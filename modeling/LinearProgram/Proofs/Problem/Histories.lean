import LinearProgram.Proofs.Document.Atomicity
import LinearProgram.Proofs.Problem.Reading

namespace LinearProgram

namespace Operation

open Problem (Change)

def disposed? : Operation → Option ((kind : EntityKind) × Handle kind)
  | dispose kind h => some ⟨kind, h⟩
  | release c => some ⟨.constraint, c⟩
  | _ => none

def disposals (op : Operation) (p : Problem) : Nat :=
  match op.disposed? with
  | some ⟨_, h⟩ => if p.isDisposed h then 0 else 1
  | none => 0

/-- The operation makes several changes, and may fail after some of them. -/
def isComposite : Operation → Bool
  | append _ | load _ _ | restoreBounds _ _ => true
  | _ => false

def changes : Operation → Change → Prop
  | addVariable _ _ | addInteger _ _ => (· = .column)
  | addConstraint _ _ _ | restore _ => (· = .row)
  | dispose kind h => (· = .removal kind h)
  | release c => (· = .removal .constraint c)
  | setVariableType v _ => (· = .bound .var v)
  | setBound kind h _ | setLowerBound kind h _ | setUpperBound kind h _ => (· = .bound kind h)
  | restoreBounds kind s => fun c => ∃ h ∈ s.bounds.keys, c = .bound kind h
  | setLinear c _ => (· = .entries c)
  | setObjective _ => (· = .prices)
  | setDirection _ => (· = .direction)
  | setName _ | setObjectiveName _ => (· = .title)
  | recordSolution _ _ => (· = .outcome)
  | append _ | load _ _ => (· ∈ [.column, .row, .prices, .direction, .title])
  | rescale _ => (· = .scale)

end Operation

namespace Problem

variable {p q r : Problem} {kind : EntityKind} {allowed : Change → Prop} {m n : Nat}

section Walks

variable {α β : Type} {x : Edit α} {f : α → Edit β}

def Walks (allowed : Change → Prop) (x : Edit α) : Prop :=
  ∀ p, p.Consistent → (Edit.final x p).InCapacity → Steps allowed p 0 (Edit.final x p)

namespace Walks

theorem pure (a : α) : Walks allowed (pure a : Edit α) := fun _ _ _ => .refl

theorem bind (hx : Walks allowed x) (hf : ∀ a, Walks allowed (f a)) (hg : ∀ a, Grows (f a)) :
    Walks allowed (x >>= f) := by
  intro p hp hroom
  have hfirst := hx p hp (inCapacity_of_bind hg hroom)
  cases hq : x p with
  | ok a q =>
    rw [Edit.final_ok hq] at hfirst
    rw [Edit.final_bind_ok hq] at hroom ⊢
    exact hfirst.trans (hf a q (hfirst.consistent hp) hroom)
  | error e q =>
    rw [Edit.final_error hq] at hfirst
    rwa [Edit.final_bind_error hq]

theorem forM {f : α → Edit PUnit} {l : List α} (hf : ∀ a ∈ l, Walks allowed (f a))
    (hg : ∀ a, Grows (f a)) : Walks allowed (l.forM f) := by
  induction l with
  | nil => exact pure _
  | cons a l ih =>
    rw [List.forall_mem_cons] at hf
    exact bind hf.1 (fun _ => ih hf.2) fun _ => Grows.forM hg l

end Walks

end Walks

section Moves

variable {α β : Type} {x : Edit α} {c : Change}

def Moves (c : Change) (d : Nat) (x : Edit α) (p : Problem) : Prop :=
  d = 0 ∧ (Refuses x p ∨ ∃ a, x p = .ok a p) ∨
    d = c.removals ∧ ∃ a q, x p = .ok a q ∧ Step c p q

namespace Moves

variable {d : Nat}

theorem of_refuses (h : Refuses x p) : Moves c 0 x p := .inl ⟨rfl, .inl h⟩

theorem of_step {a : α} (hq : x p = .ok a q) (hs : Step c p q) : Moves c c.removals x p :=
  .inr ⟨rfl, a, q, hq, hs⟩

theorem congr {y : Edit α} (h : Moves c d y p) (hxy : x p = y p) : Moves c d x p := by
  unfold Moves Refuses
  rw [hxy]
  exact h

theorem ask {read : Problem → Outcome α} {f : α → Edit β} (hu : Outcome.Unbroken (read p))
    (hf : ∀ a, read p = .ok a → Moves c 0 (f a) p) : Moves c 0 (Problem.ask read >>= f) p := by
  obtain ⟨a, ha⟩ | ⟨e, he⟩ := hu.cases
  · exact (hf a ha).congr (by rw [Edit.bind_apply, ask_ok ha])
  · exact .of_refuses ⟨e, by simp only [Edit.bind_apply, Problem.ask, he]⟩

theorem answered (h : Moves c d x p) (f : α → β) : Moves c d (x >>= fun a => pure (f a)) p := by
  obtain ⟨hd, ⟨e, he⟩ | ⟨a, ha⟩⟩ | ⟨hd, a, q, hq, hs⟩ := h
  · exact .inl ⟨hd, .inl ⟨e, by simp only [Edit.bind_apply, he]⟩⟩
  · exact .inl ⟨hd, .inr ⟨f a, by simp only [Edit.bind_apply, ha, Edit.pure_apply]⟩⟩
  · exact .inr ⟨hd, f a, q, by simp only [Edit.bind_apply, hq, Edit.pure_apply], hs⟩

theorem steps (h : Moves c d x p) (hc : allowed c) : Steps allowed p d (Edit.final x p) := by
  obtain ⟨rfl, hr | ⟨a, ha⟩⟩ | ⟨rfl, a, q, hq, hs⟩ := h
  · rw [hr.final]
    exact .refl
  · rw [Edit.final_ok ha]
    exact .refl
  · rw [Edit.final_ok hq]
    exact .single hc hs

theorem step (h : Moves c d x p) (hd : d ≠ 0) : Step c p (Edit.final x p) := by
  obtain ⟨h0, -⟩ | ⟨-, a, q, hq, hs⟩ := h
  · exact absurd h0 hd
  · rwa [Edit.final_ok hq]

theorem unchanged (h : Moves c d x p) {e : Failure Error} (he : x p = .error e q) : q = p := by
  obtain ⟨-, ⟨e', hr⟩ | ⟨a, ha⟩⟩ | ⟨-, a, r, hq, -⟩ := h
  · rw [he] at hr
    cases hr
    rfl
  · rw [he] at ha
    cases ha
  · rw [he] at hq
    cases hq

end Moves

namespace Consistent

variable (hp : p.Consistent)
include hp

theorem isDisposed_iff {h : Handle kind} : p.isDisposed h = true ↔ h ∉ p.handles kind := by
  rw [isDisposed, Bool.or_eq_true, decide_eq_true_eq, Bool.not_eq_true', Table.contains,
    Option.isSome_eq_false_iff, Option.isNone_iff_eq_none]
  constructor
  · rintro (ho | ht) hm
    · exact ho (problem_of_mem hm)
    · obtain ⟨tenant, htenant⟩ := hp.tenant_of_mem hm
      rw [ht] at htenant
      cases htenant
  · intro hm
    by_cases ho : h.problem = p.id
    · right
      rw [Option.eq_none_iff_forall_ne_some]
      intro tenant ht
      exact hm (hp.mem_of_tenant ho ht)
    · exact .inl ho

theorem moves_addVariable {name : String} {type : VarType}
    (hroom : (Edit.final (addVariable name type) p).InCapacity) :
    Moves .column 0 (addVariable name type) p := by
  obtain hr | ⟨hn, hq⟩ := hp.addVariable_cases name type
  · exact .of_refuses hr
  · rw [Edit.final_ok hq] at hroom
    exact .of_step hq (.fresh (lt_capacity_of_withColumn hroom) hn type)

theorem moves_addInteger {name : String} {b : Bound}
    (hroom : (Edit.final (addInteger name b) p).InCapacity) :
    Moves .column 0 (addInteger name b) p := by
  obtain hr | hlt := hp.refuses_or_lt_of_addInteger hroom
  · exact .of_refuses hr
  · obtain hr | ⟨⟨hn, hb⟩, hq⟩ := hp.addInteger_cases hlt name b
    · exact .of_refuses hr
    · exact .of_step hq (.column hlt hn hb rfl)

theorem moves_addConstraint {name : String} {l : Option Linear} {b : Bound}
    (hroom : (Edit.final (addConstraint name l b) p).InCapacity) :
    Moves .row 0 (addConstraint name l b) p := by
  obtain hr | ⟨⟨hn, hl, hb⟩, hq⟩ := hp.addConstraint_cases name l b
  · exact .of_refuses hr
  · rw [Edit.final_ok hq] at hroom
    exact .of_step hq (.row (lt_capacity_of_withRow hroom) hn hb hl)

theorem moves_dispose (h : Handle kind) :
    Moves (.removal kind h) (if p.isDisposed h then 0 else 1) (dispose h) p := by
  by_cases hd : p.isDisposed h = true
  · rw [if_pos hd]
    obtain hr | ⟨-, hq⟩ | ⟨tenant, -, hh, -⟩ := hp.dispose_cases h
    · exact .of_refuses hr
    · exact .inl ⟨rfl, .inr ⟨(), hq⟩⟩
    · exact absurd hh (hp.isDisposed_iff.mp hd)
  · rw [if_neg hd]
    have hh : h ∈ p.handles kind := by
      by_contra hn
      exact hd (hp.isDisposed_iff.mpr hn)
    obtain ⟨tenant, ht⟩ := hp.tenant_of_mem hh
    exact .of_step (hp.dispose_eq (problem_of_mem hh) ht) (.removal hh ht)

theorem moves_setVariableType (v : Variable) (type : VarType) :
    Moves (.bound .var v) 0 (setVariableType v type) p := by
  obtain hr | ⟨hv, hq⟩ := hp.setVariableType_cases v type
  · exact .of_refuses hr
  · exact .of_step hq (.type type hv)

theorem moves_setBound (h : Handle kind) (b : Bound) :
    Moves (.bound kind h) 0 (setBound h b) p := by
  obtain hr | ⟨⟨hh, hb⟩, hq⟩ := hp.setBound_cases h b
  · exact .of_refuses hr
  · exact .of_step hq (.bound hh hb)

theorem moves_setLowerBound (h : Handle kind) (lower : Option Float) :
    Moves (.bound kind h) 0 (setLowerBound h lower) p :=
  .ask (hp.bound_unbroken h) fun b _ => hp.moves_setBound h (b.withLower lower)

theorem moves_setUpperBound (h : Handle kind) (upper : Option Float) :
    Moves (.bound kind h) 0 (setUpperBound h upper) p :=
  .ask (hp.bound_unbroken h) fun b _ => hp.moves_setBound h (b.withUpper upper)

theorem moves_setLinear (c : Constraint) (l : Option Linear) :
    Moves (.entries c) 0 (setLinear c l) p := by
  obtain hr | ⟨⟨hc, hl⟩, hq⟩ := hp.setLinear_cases c l
  · exact .of_refuses hr
  · exact .of_step hq (.entries hc hl)

theorem moves_setObjective (l : Option Linear) : Moves .prices 0 (setObjective l) p := by
  obtain hr | ⟨hl, hq⟩ := hp.setObjective_cases l
  · exact .of_refuses hr
  · exact .of_step hq (.prices hl)

omit hp in
theorem moves_setDirection (direction : Direction) :
    Moves .direction 0 (setDirection direction) p :=
  .of_step (setDirection_eq direction) (.direction direction)

theorem moves_recordSolution (status : Status) (values : Option Solution) :
    Moves .outcome 0 (recordSolution status values) p := by
  obtain hr | ⟨solution, hs, hf, hq⟩ := hp.recordSolution_cases status values
  · exact .of_refuses hr
  · exact .of_step hq (.outcome hs hf)

omit hp in
theorem moves_setName (name : Option String) : Moves .title 0 (setName name) p := by
  obtain hr | ⟨hn, hq⟩ := setName_cases (p := p) name
  · exact .of_refuses hr
  · exact .of_step hq (.name hn)

omit hp in
theorem moves_setObjectiveName (name : Option String) :
    Moves .title 0 (setObjectiveName name) p := by
  obtain hr | ⟨hn, hq⟩ := setObjectiveName_cases (p := p) name
  · exact .of_refuses hr
  · exact .of_step hq (.objectiveName hn)

theorem capture_eq {c : Constraint} (hc : c ∈ p.constraints) :
    ∃ s, ConstraintSnapshot.capture p c = .ok s := by
  have hi : p.indexOf c = .ok (p.constraints.idxOf c) := hp.indexOf_of_mem hc
  have hlt : p.constraints.idxOf c < p.tableau.rows.length := by
    simpa [Tableau.names] using hp.index_lt hi
  have hr := List.getElem?_eq_getElem hlt
  have hname : p.nameOf c = .ok (p.tableau.rows[p.constraints.idxOf c]).name :=
    hp.nameOf_eq hi (by simp [Tableau.names, hr])
  have hbound := bound_eq hi (b := (p.tableau.rows[p.constraints.idxOf c]).bound)
    (by simp [Tableau.bounds, hr])
  obtain ⟨l, hl, -⟩ := hp.termsOf_linear hi hr
  exact ⟨_, by simp only [ConstraintSnapshot.capture, hname, hl, hbound, Outcome.bind_ok]; rfl⟩

theorem release_eq {c : Constraint} (hc : c ∈ p.constraints) {tenant : Tenant}
    (ht : p.rows.tenant? c.key = some tenant) {s : ConstraintSnapshot}
    (hs : ConstraintSnapshot.capture p c = .ok s) :
    ConstraintSnapshot.release c p = .ok s (p.without c tenant) := by
  have hdispose : dispose c p = .ok () (p.without c tenant) :=
    hp.dispose_eq (problem_of_mem hc) ht
  rw [ConstraintSnapshot.release, ask_passed hs, Edit.bind_apply, hdispose]
  rfl

theorem moves_release (c : Constraint) :
    Moves (.removal .constraint c) (if p.isDisposed c then 0 else 1)
      (ConstraintSnapshot.release c) p := by
  by_cases hd : p.isDisposed c = true
  · rw [if_pos hd]
    obtain ⟨i, hi⟩ | ⟨e, he⟩ := (p.indexOf_unbroken c).cases
    · exact absurd (hp.indexOf_eq_ok_iff_idxOf.mp hi).1 (hp.isDisposed_iff.mp hd)
    · refine .of_refuses ⟨e, ?_⟩
      simp only [ConstraintSnapshot.release, ConstraintSnapshot.capture, Edit.bind_apply,
        Problem.ask, nameOf, he, Outcome.bind_error]
  · have hc : c ∈ p.constraints := by
      by_contra hn
      exact hd (hp.isDisposed_iff.mpr hn)
    obtain ⟨s, hs⟩ := hp.capture_eq hc
    obtain ⟨tenant, ht⟩ := hp.tenant_of_mem hc
    rw [if_neg hd]
    exact .of_step (hp.release_eq hc ht hs) (.removal hc ht)

end Consistent

end Moves

section Composite

variable {d : Document}

theorem Walks.of_moves {α : Type} {x : Edit α} {c : Change} (hc : allowed c)
    (h : ∀ p, p.Consistent → (Edit.final x p).InCapacity → Moves c 0 x p) : Walks allowed x :=
  fun p hp hroom => (h p hp hroom).steps hc

theorem walks_setTitle {set : Option String → Edit Unit} (hs : ∀ name, Walks allowed (set name))
    (name : Option String) : Walks allowed (setTitle set name) := by
  unfold setTitle
  split
  · exact hs name
  · exact Walks.pure ()

theorem walks_addConstraintRecord (hc : allowed .row) (named : List (String × Variable))
    (r : ConstraintRecord) : Walks allowed (addConstraintRecord named r) :=
  (Walks.of_moves hc fun _ hp => hp.moves_addConstraint).bind (fun _ => .pure ())
    fun _ => .pure ()

theorem walks_conclude (hc : ∀ c ∈ [Change.prices, .direction, .title], allowed c)
    (d : Document) (objective : Linear) (created : List Variable) :
    Walks allowed (conclude d objective created) := by
  simp only [List.forall_mem_cons] at hc
  have hobjective (l : Option Linear) : Walks allowed (setObjective l) :=
    .of_moves hc.1 fun _ hp _ => hp.moves_setObjective l
  have hdirection (direction : Direction) : Walks allowed (setDirection direction) :=
    .of_moves hc.2.1 fun _ _ _ => Consistent.moves_setDirection direction
  have hname (name : Option String) : Walks allowed (setName name) :=
    .of_moves hc.2.2.1 fun _ _ _ => Consistent.moves_setName name
  have hobjectiveName (name : Option String) : Walks allowed (setObjectiveName name) :=
    .of_moves hc.2.2.1 fun _ _ _ => Consistent.moves_setObjectiveName name
  have gname := Grows.setTitle Grows.setName d.name
  have gobjectiveName := Grows.setTitle Grows.setObjectiveName d.objectiveName
  refine (hobjective _).bind (fun _ => (hdirection _).bind (fun _ =>
    (walks_setTitle hname _).bind (fun _ =>
      (walks_setTitle hobjectiveName _).bind (fun _ => .pure created) fun _ => .pure created)
      fun _ => gobjectiveName.bind fun _ => .pure created)
      fun _ => gname.bind fun _ => gobjectiveName.bind fun _ => .pure created) fun _ => ?_
  exact (Grows.setDirection _).bind fun _ => gname.bind fun _ => gobjectiveName.bind fun _ =>
    .pure created

theorem Consistent.steps_withColumns (hp : p.Consistent) (hc : allowed .column)
    {records : List VariableRecord} (hroom : p.columns.size + records.length ≤ Table.capacity)
    (hf : ∀ r ∈ records, r.Fits (p.tableau.names .var)) (hd : (records.map (·.name)).Nodup) :
    Steps allowed p 0 (p.withColumns (records.map (·.column))) := by
  induction records generalizing p with
  | nil => exact .refl
  | cons r records ih =>
    rw [List.forall_mem_cons] at hf
    rw [List.map_cons, List.nodup_cons, List.mem_map, not_exists] at hd
    rw [List.length_cons] at hroom
    have hlt : p.columns.size < Table.capacity := by omega
    have hname : Nameable (p.tableau.names .var) r.column.name := by
      rw [VariableRecord.column_name]
      exact hf.1.name
    have hstep : Step .column p (p.withColumn r.column) :=
      .column hlt hname hf.1.column_bound (VariableRecord.column_objective r)
    -- the names of the other records are still free, because the records have distinct names
    have hnext : ∀ s ∈ records, s.Fits ((p.withColumn r.column).tableau.names .var) := by
      intro s hs
      exact Consistent.fits_after (hf.2 s hs) fun he => hd.1 s ⟨hs, he⟩
    have hsize : (p.withColumn r.column).columns.size + records.length ≤ Table.capacity := by
      rw [size_withColumn]
      omega
    exact (Steps.single hc hstep).trans (ih (hstep.consistent hp) hsize hnext hd.2)

theorem Consistent.started_of_check (hp : p.Consistent) (hcap : p.InCapacity)
    (hcheck : p.checkDocument d = .ok ()) (hroom : (Edit.final (appendDocument d) p).InCapacity) :
    p.columns.size + d.vars.length ≤ Table.capacity ∧ ∃ created, Started p d created ∧
      Steps (· ∈ [.row, .prices, .direction, .title]) (p.withVarsOf d) 0
        (Edit.final (appendDocument d) p) := by
  have ha := hp.checkDocument_eq_ok_iff.mp hcheck
  have hfinal (y : Edit (List Variable)) (hy : appendDocument d p = y p) :
      Edit.final (appendDocument d) p = Edit.final y p := by
    unfold Edit.final
    rw [hy]
  rw [hfinal _ (hp.appendDocument_apply hcheck)] at hroom ⊢
  have hvars := hp.room_of_addVariables hcap ha.vars ha.varsDistinct
    (inCapacity_of_bind (grows_addConstraints d p.objectiveForm) hroom)
  obtain ⟨created, h⟩ := hp.started ha hvars
  rw [Edit.final_bind_ok h.run] at hroom ⊢
  have hwalk : Walks (· ∈ [.row, .prices, .direction, .title])
      (d.constraints.forM (addConstraintRecord (namedBy d created)) >>= fun _ =>
        conclude d p.objectiveForm created) :=
    (Walks.forM (fun r _ => walks_addConstraintRecord (by simp) _ r)
      (Grows.addConstraintRecord _)).bind
      (fun _ => walks_conclude (by simp) d _ created) fun _ => grows_conclude d _ created
  exact ⟨hvars, created, h, hwalk _ h.consistent hroom⟩

theorem Consistent.steps_appendDocument (hp : p.Consistent) (hcap : p.InCapacity)
    (hc : ∀ c ∈ [Change.column, .row, .prices, .direction, .title], allowed c)
    (hroom : (Edit.final (appendDocument d) p).InCapacity) :
    Steps allowed p 0 (Edit.final (appendDocument d) p) := by
  rw [List.forall_mem_cons] at hc
  cases hcheck : p.checkDocument d with
  | error e =>
    rw [Edit.final_error (refused_of_check hcheck)]
    exact .refl
  | ok u =>
    have ha := hp.checkDocument_eq_ok_iff.mp hcheck
    obtain ⟨hvars, created, -, hsteps⟩ := hp.started_of_check hcap hcheck hroom
    exact (hp.steps_withColumns hc.1 hvars ha.vars ha.varsDistinct).trans (hsteps.mono hc.2)

theorem Consistent.steps_load (hp : p.Consistent) (hcap : p.InCapacity)
    (hc : ∀ c ∈ [Change.column, .row, .prices, .direction, .title], allowed c) {files : Files}
    {name : String} (hroom : (Edit.final (load files name) p).InCapacity) :
    Steps allowed p 0 (Edit.final (load files name) p) := by
  have hask {α β : Type} {x : Outcome α} {f : α → Edit β}
      (hf : ∀ a, (Edit.final (f a) p).InCapacity → Steps allowed p 0 (Edit.final (f a) p))
      (hroom : (Edit.final (ask (fun _ => x) >>= f) p).InCapacity) :
      Steps allowed p 0 (Edit.final (ask (fun _ => x) >>= f) p) := by
    cases x with
    | ok a => exact hf a hroom
    | error e => exact .refl
  unfold load at hroom ⊢
  refine hask (fun text hroom => ?_) hroom
  exact hask (fun d hroom => hp.steps_appendDocument hcap hc hroom) hroom

theorem walks_restoreBounds (s : BoundSnapshot kind)
    (hc : ∀ h ∈ s.bounds.keys, allowed (.bound kind h)) : Walks allowed s.restore := by
  unfold BoundSnapshot.restore
  refine Walks.forM (fun e he => ?_) fun e => Grows.setBound e.1 e.2
  have hallowed := hc e.1 (List.mem_map_of_mem he)
  exact .of_moves hallowed fun _ hp _ => hp.moves_setBound e.1 e.2

end Composite

/-- `q` is reached from `p` by allowed operations that dispose `n` entities. -/
inductive Leads (allowed : Problem → Operation → Prop) (p : Problem) : Nat → Problem → Prop
  | refl : Leads allowed p 0 p
  | step {n : Nat} {q : Problem} (op : Operation) (h : Leads allowed p n q) (ha : allowed q op)
    (hroom : (op.after q).InCapacity) : Leads allowed p (n + op.disposals q) (op.after q)

end Problem

namespace Operation

open Problem

variable {p : Problem}

theorem moves (op : Operation) (hp : p.Consistent) (hop : op.isComposite = false)
    (hroom : (op.after p).InCapacity) :
    ∃ c, op.changes c ∧ Moves c (op.disposals p) op.perform p := by
  unfold after at hroom
  cases op with
  | addVariable name type =>
    rw [perform, Edit.final_bind_pure] at hroom
    exact ⟨_, rfl, (hp.moves_addVariable hroom).answered _⟩
  | addInteger name b =>
    rw [perform, Edit.final_bind_pure] at hroom
    exact ⟨_, rfl, (hp.moves_addInteger hroom).answered _⟩
  | addConstraint name l b =>
    rw [perform, Edit.final_bind_pure] at hroom
    exact ⟨_, rfl, (hp.moves_addConstraint hroom).answered _⟩
  | dispose kind h => exact ⟨_, rfl, (hp.moves_dispose h).answered _⟩
  | setVariableType v type => exact ⟨_, rfl, (hp.moves_setVariableType v type).answered _⟩
  | setBound kind h b => exact ⟨_, rfl, (hp.moves_setBound h b).answered _⟩
  | setLowerBound kind h lower => exact ⟨_, rfl, (hp.moves_setLowerBound h lower).answered _⟩
  | setUpperBound kind h upper => exact ⟨_, rfl, (hp.moves_setUpperBound h upper).answered _⟩
  | setLinear c l => exact ⟨_, rfl, (hp.moves_setLinear c l).answered _⟩
  | setObjective l => exact ⟨_, rfl, (hp.moves_setObjective l).answered _⟩
  | setDirection direction => exact ⟨_, rfl, (Consistent.moves_setDirection direction).answered _⟩
  | setName name => exact ⟨_, rfl, (Consistent.moves_setName name).answered _⟩
  | setObjectiveName name => exact ⟨_, rfl, (Consistent.moves_setObjectiveName name).answered _⟩
  | recordSolution status values =>
    exact ⟨_, rfl, (hp.moves_recordSolution status values).answered _⟩
  | release c => exact ⟨_, rfl, (hp.moves_release c).answered _⟩
  | restore s =>
    rw [perform, Edit.final_bind_pure] at hroom
    exact ⟨_, rfl, (hp.moves_addConstraint hroom).answered _⟩
  | rescale digits => exact ⟨_, rfl, .of_step rfl (.scale digits)⟩
  | append d | load files name | restoreBounds kind s => cases hop

theorem steps (op : Operation) (hp : p.Consistent) (hcap : p.InCapacity)
    (hroom : (op.after p).InCapacity) : Steps op.changes p (op.disposals p) (op.after p) := by
  by_cases hop : op.isComposite = false
  · obtain ⟨c, hc, h⟩ := op.moves hp hop hroom
    exact h.steps hc
  · unfold after at hroom ⊢
    cases op with
    | append d =>
      rw [perform, Edit.final_bind_pure] at hroom ⊢
      exact hp.steps_appendDocument hcap (fun _ hc => hc) hroom
    | load files name =>
      rw [perform, Edit.final_bind_pure] at hroom ⊢
      exact hp.steps_load hcap (fun _ hc => hc) hroom
    | restoreBounds kind s =>
      rw [perform, Edit.final_bind_pure] at hroom ⊢
      exact walks_restoreBounds s (fun h hh => ⟨h, hh, rfl⟩) p hp hroom
    | _ => exact absurd rfl hop

end Operation

namespace Problem

variable {p q : Problem} {allowed : Change → Prop} {n : Nat}
  {permitted : Problem → Operation → Prop}

theorem Leads.inCapacity (h : Leads permitted p n q) (hcap : p.InCapacity) : q.InCapacity := by
  cases h with
  | refl => exact hcap
  | step op _ _ hroom => exact hroom

theorem Leads.steps (h : Leads permitted p n q) (hp : p.Consistent) (hcap : p.InCapacity)
    (ha : ∀ r op, r.Consistent → r.InCapacity → permitted r op → (op.after r).InCapacity →
      Steps op.changes r (op.disposals r) (op.after r) →
        Steps allowed r (op.disposals r) (op.after r)) : Steps allowed p n q := by
  induction h with
  | refl => exact .refl
  | step op h hop hroom ih =>
    have hr := ih.consistent hp
    have hrcap := h.inCapacity hcap
    exact ih.trans (ha _ op hr hrcap hop hroom (op.steps hr hrcap hroom))

end Problem

end LinearProgram
