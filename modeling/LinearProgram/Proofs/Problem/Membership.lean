import LinearProgram.Proofs.Problem.Retirement

namespace LinearProgram

namespace Operation

/-- The variables that are returned while the records of a document are added, whatever becomes of
the rest of the document. -/
def addedFrom (d : Document) (p : Problem) : List Variable :=
  match p.checkDocument d with
  | .ok () => (Edit.answer? (d.vars.mapM Problem.addVariableRecord) p).getD []
  | .error _ => []

def added (op : Operation) (p : Problem) : List Variable :=
  match op with
  | addVariable name type => (Edit.answer? (Problem.addVariable name type) p).toList
  | addInteger name b => (Edit.answer? (Problem.addInteger name b) p).toList
  | append d => addedFrom d p
  | load files name =>
    match files.read name >>= Document.ofJson with
    | .ok d => addedFrom d p
    | .error _ => []
  | _ => []

def removed? (op : Operation) (p : Problem) : Option ((kind : EntityKind) × Handle kind) :=
  op.disposed?.filter fun e => !p.isDisposed e.2

end Operation

namespace Problem

variable {p q : Problem} {kind : EntityKind} {h : Handle kind} {v : Variable} {c : Change}
  {allowed : Change → Prop} {n : Nat} {d : Document}

def Change.SparesVars (c : Change) : Prop := c ≠ .column ∧ ∀ v, c ≠ .removal .var v

theorem Step.vars_eq (hs : Step c p q) (hc : c.SparesVars) : q.vars = p.vars := by
  obtain ⟨hcolumn, hremoval⟩ := hc
  cases hs with
  | column => exact absurd rfl hcolumn
  | @removal _ kind g _ hg ht =>
    cases kind with
    | var => exact absurd rfl (hremoval g)
    | constraint => exact (Step.removal hg ht).handles_other (by decide)
  | _ => rfl

theorem Steps.vars_eq (hs : Steps allowed p n q) (ha : ∀ c, allowed c → c.SparesVars) :
    q.vars = p.vars := by
  induction hs with
  | refl => rfl
  | tail _ hc hstep ih => exact (hstep.vars_eq (ha _ hc)).trans ih

theorem Consistent.vars_final_appendDocument (hp : p.Consistent) (hcap : p.InCapacity)
    (hroom : (Edit.final (appendDocument d) p).InCapacity) :
    (Edit.final (appendDocument d) p).vars = p.vars ++ Operation.addedFrom d p := by
  unfold Operation.addedFrom
  cases hcheck : p.checkDocument d with
  | error e => rw [Edit.final_error (refused_of_check hcheck), List.append_nil]
  | ok u =>
    obtain ⟨-, created, h, hsteps⟩ := hp.started_of_check hcap hcheck hroom
    rw [hsteps.vars_eq (by simp [Change.SparesVars]), h.vars, Edit.answer?, h.run]
    rfl

theorem final_load (files : Files) (name : String) : Edit.final (load files name) p =
    match files.read name >>= Document.ofJson with
    | .ok d => Edit.final (appendDocument d) p
    | .error _ => p := by
  unfold load
  cases files.read name with
  | error e => rfl
  | ok text =>
    change Edit.final (ask (fun _ => Document.ofJson text) >>= fun d => appendDocument d) p =
      match Document.ofJson text with
      | .ok d => Edit.final (appendDocument d) p
      | .error _ => p
    cases Document.ofJson text <;> rfl

theorem vars_final_of_single {x : Edit Variable}
    (hok : ∀ v q, x p = .ok v q → q.vars = p.vars ++ [v])
    (herr : ∀ e q, x p = .error e q → q = p) :
    (Edit.final x p).vars = p.vars ++ (Edit.answer? x p).toList := by
  unfold Edit.final Edit.answer?
  cases hx : x p with
  | ok v q => exact hok v q hx
  | error e q =>
    rw [herr e q hx]
    exact (List.append_nil _).symm

end Problem

namespace Operation

open Problem

variable {p : Problem} {kind : EntityKind} {h : Handle kind} {v : Variable} {op : Operation}

theorem removed?_eq_some_iff (hp : p.Consistent) :
    op.removed? p = some ⟨kind, h⟩ ↔ op.disposed? = some ⟨kind, h⟩ ∧ h ∈ p.handles kind := by
  rw [removed?, Option.filter_eq_some_iff, Bool.not_eq_true', ← Bool.not_eq_true,
    hp.isDisposed_iff, not_not]

theorem disposals_eq (op : Operation) (p : Problem) :
    op.disposals p = (op.removed? p).toList.length := by
  unfold disposals removed?
  cases op.disposed? with
  | none => rfl
  | some e =>
    cases hd : p.isDisposed e.2 <;> simp [Option.filter, hd]

theorem vars_of_removed (hp : p.Consistent) (hr : op.removed? p = some ⟨.var, v⟩) :
    (op.after p).vars = p.vars.erase v ∧ op.added p = [] := by
  obtain ⟨hop, hv⟩ := (removed?_eq_some_iff hp).mp hr
  have hstep := op.step_of_disposed hp hv hop
  refine ⟨?_, ?_⟩
  · rw [List.erase_eq_eraseIdx_of_idxOf rfl]
    exact hstep.handles_erase hp
  · cases op <;> first | rfl | cases hop

theorem vars_of_kept (hp : p.Consistent) (hcap : p.InCapacity) (hroom : (op.after p).InCapacity)
    (hr : ∀ v, op.removed? p ≠ some ⟨.var, v⟩) : (op.after p).vars = p.vars ++ op.added p := by
  have hsteps := op.steps hp hcap hroom
  have hspared (hc : ∀ c, op.changes c → c.SparesVars) (hadded : op.added p = []) :
      (op.after p).vars = p.vars ++ op.added p := by
    rw [hadded, List.append_nil]
    exact hsteps.vars_eq hc
  clear hsteps
  cases op with
  | addVariable name type =>
    rw [after, perform, Edit.final_bind_pure] at hroom ⊢
    exact vars_final_of_single (fun _ _ => hp.vars_addVariable) fun _ _ =>
      (hp.moves_addVariable hroom).unchanged
  | addInteger name b =>
    rw [after, perform, Edit.final_bind_pure] at hroom ⊢
    refine vars_final_of_single (fun v q hx => hp.vars_addInteger ?_ hx) fun _ _ =>
      (hp.moves_addInteger hroom).unchanged
    rwa [Edit.final_ok hx] at hroom
  | append d =>
    rw [after, perform, Edit.final_bind_pure] at hroom ⊢
    exact hp.vars_final_appendDocument hcap hroom
  | load files name =>
    rw [after, perform, Edit.final_bind_pure, final_load] at hroom ⊢
    simp only [added]
    cases hd : files.read name >>= Document.ofJson with
    | error e => exact (List.append_nil _).symm
    | ok d =>
      simp only [hd] at hroom
      exact hp.vars_final_appendDocument hcap hroom
  | dispose kind g =>
    cases kind with
    | constraint => exact hspared (by rintro _ rfl; simp [Change.SparesVars]) rfl
    | var =>
      have hg : g ∉ p.vars := fun hg => hr g ((removed?_eq_some_iff hp).mpr ⟨rfl, hg⟩)
      have hsame : (dispose .var g).after p = p := by
        rw [after, perform, Edit.final_bind_pure]
        obtain hrefused | ⟨-, hok⟩ | ⟨tenant, -, hlive, -⟩ := hp.dispose_cases g
        · exact hrefused.final
        · exact Edit.final_ok hok
        · exact absurd hlive hg
      rw [hsame]
      exact (List.append_nil _).symm
  | release g => exact hspared (by rintro _ rfl; simp [Change.SparesVars]) rfl
  | restoreBounds kind s =>
    refine hspared ?_ rfl
    rintro _ ⟨g, -, rfl⟩
    simp [Change.SparesVars]
  | _ =>
    refine hspared ?_ rfl
    rintro _ rfl
    simp [Change.SparesVars]

theorem mem_vars_of_added (hp : p.Consistent) (hcap : p.InCapacity)
    (hroom : (op.after p).InCapacity) (hv : v ∈ op.added p) : v ∈ (op.after p).vars := by
  have hr (g : Variable) : op.removed? p ≠ some ⟨.var, g⟩ := by
    intro hr
    rw [(vars_of_removed hp hr).2] at hv
    cases hv
  rw [vars_of_kept hp hcap hroom hr]
  exact List.mem_append_right _ hv

theorem nodup_added (hp : p.Consistent) (hcap : p.InCapacity) (hroom : (op.after p).InCapacity) :
    (p.vars ++ op.added p).Nodup := by
  by_cases hr : ∃ g, op.removed? p = some ⟨.var, g⟩
  · obtain ⟨g, hr⟩ := hr
    rw [(vars_of_removed hp hr).2, List.append_nil]
    exact hp.handles_nodup .var
  · rw [not_exists] at hr
    rw [← vars_of_kept hp hcap hroom hr]
    exact ((op.steps hp hcap hroom).consistent hp).handles_nodup .var

theorem added_of_answered (hp : p.Consistent) (hcap : p.InCapacity) {q : Problem} (hq : q.InCapacity)
    {answer : Answer} (hop : op.perform p = .ok answer q) : op.added p = answer.made .var := by
  have happended {d : Document} {vs : List Variable} (hx : appendDocument d p = .ok vs q) :
      addedFrom d p = vs := by
    have hvars := hp.vars_final_appendDocument hcap (by rwa [Edit.final_ok hx])
    rw [Edit.final_ok hx, hp.vars_appendDocument hcap hq hx] at hvars
    exact (List.append_cancel_left hvars).symm
  cases op with
  | addVariable name type =>
    obtain ⟨v, hx, rfl⟩ := ok_of_answered hop
    simp only [added, Edit.answer?, hx]
    rfl
  | addInteger name b =>
    obtain ⟨v, hx, rfl⟩ := ok_of_answered hop
    simp only [added, Edit.answer?, hx]
    rfl
  | append d =>
    obtain ⟨vs, hx, rfl⟩ := ok_of_answered hop
    exact happended hx
  | load files name =>
    obtain ⟨vs, hx, rfl⟩ := ok_of_answered hop
    obtain ⟨text, hread, hx⟩ := ok_of_ask hx
    obtain ⟨d, hd, hx⟩ := ok_of_ask hx
    simp only [added, hread, Outcome.bind_ok, hd]
    exact happended hx
  | _ =>
    obtain ⟨-, -, rfl⟩ := ok_of_answered hop
    rfl

end Operation

end LinearProgram
