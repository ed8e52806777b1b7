import LinearProgram.Proofs.Problem.Histories
import LinearProgram.Proofs.Table.Retirement

namespace LinearProgram

namespace Answer

def made : Answer → (kind : EntityKind) → List (Handle kind)
  | var v, .var => [v]
  | constraint c, .constraint => [c]
  | vars vs, .var => vs
  | _, _ => []

end Answer

namespace Problem

variable {p q r : Problem} {kind : EntityKind} {h : Handle kind} {c : Change}
  {allowed : Change → Prop} {m n : Nat}

/-- The slot of the handle has been vacated since the handle was issued, at most `n` times. -/
def Retired (p : Problem) (n : Nat) (h : Handle kind) : Prop :=
  h.problem = p.id ∧ (p.table kind).Retired n h.key

section Stepping

theorem Step.id_eq (hs : Step c p q) : q.id = p.id := by
  cases hs with
  | @removal _ kind => cases kind <;> rfl
  | _ => rfl

theorem Step.table_cases (hs : Step c p q) (kind : EntityKind) :
    q.table kind = p.table kind ∨
      ((p.table kind).size < Table.capacity ∧
        ∃ name, q.table kind = (p.table kind).entered name) ∨
      ∃ (h : Handle kind) (tenant : Tenant), c = .removal kind h ∧ h ∈ p.handles kind ∧
        (p.table kind).tenant? h.key = some tenant ∧
        q.table kind = (p.table kind).vacate h.key tenant := by
  cases hs with
  | @column _ c hroom =>
    cases kind with
    | var => exact .inr (.inl ⟨hroom, c.name, rfl⟩)
    | constraint => exact .inl rfl
  | @row _ name _ _ hroom =>
    cases kind with
    | var => exact .inl rfl
    | constraint => exact .inr (.inl ⟨hroom, name, rfl⟩)
  | @removal _ other h tenant hh ht =>
    by_cases ho : kind = other
    · subst ho
      refine .inr (.inr ⟨h, tenant, rfl, hh, ht, ?_⟩)
      cases kind <;> rfl
    · left
      cases kind <;> cases other <;> first | rfl | exact absurd rfl ho
  | _ => cases kind <;> exact .inl rfl

theorem handles_congr (hid : q.id = p.id) (ht : q.table kind = p.table kind) :
    q.handles kind = p.handles kind := by
  rw [handles, handles, hid, ht]

theorem handles_entered (hid : q.id = p.id) {name : String}
    (ht : q.table kind = (p.table kind).entered name) :
    q.handles kind = p.handles kind ++ [p.nextHandle kind] := by
  rw [handles, ht, hid, Table.order_entered, List.map_append]
  rfl

theorem handles_vacate (hid : q.id = p.id) {tenant : Tenant}
    (ht : q.table kind = (p.table kind).vacate h.key tenant) :
    q.handles kind = (p.handles kind).eraseIdx tenant.index := by
  rw [handles, ht, hid]
  exact (List.eraseIdx_map _ _ _).symm

theorem constraints_withRow (p : Problem) (row : Row) :
    (p.withRow row).constraints = p.constraints ++ [p.nextHandle .constraint] :=
  List.map_append

theorem handles_without (p : Problem) (h : Handle kind) (tenant : Tenant) :
    (p.without h tenant).handles kind = (p.handles kind).eraseIdx tenant.index := by
  cases kind <;> exact (List.eraseIdx_map _ _ _).symm

theorem handles_without_of_ne (p : Problem) {other : EntityKind} (ho : other ≠ kind)
    (g : Handle kind) (tenant : Tenant) : (p.without g tenant).handles other = p.handles other := by
  cases kind <;> cases other <;> first | rfl | exact absurd rfl ho

theorem Consistent.idxOf_of_tenant (hp : p.Consistent) (hh : h ∈ p.handles kind) {tenant : Tenant}
    (ht : (p.table kind).tenant? h.key = some tenant) :
    tenant.index = (p.handles kind).idxOf h := by
  have ho := problem_of_mem hh
  have hi : (p.handles kind)[tenant.index]? = some h :=
    handles_getElem?.mpr ⟨ho, (hp.lists kind).order_of_tenant ht⟩
  exact (hp.indexOf_eq_ok_iff_idxOf.mp (hp.indexOf_eq_ok_iff.mpr hi)).2

theorem Step.handles_append (hs : Step c p q) (hc : c.removals = 0) (kind : EntityKind) :
    ∃ added, q.handles kind = p.handles kind ++ added := by
  obtain ht | ⟨-, name, ht⟩ | ⟨h, tenant, rfl, -⟩ := hs.table_cases kind
  · exact ⟨[], by rw [handles_congr hs.id_eq ht, List.append_nil]⟩
  · exact ⟨_, handles_entered hs.id_eq ht⟩
  · cases hc

theorem Step.handles_erase (hp : p.Consistent) (hs : Step (.removal kind h) p q) :
    q.handles kind = (p.handles kind).eraseIdx ((p.handles kind).idxOf h) := by
  cases hs with
  | @removal _ _ _ tenant hh ht => rw [handles_without, hp.idxOf_of_tenant hh ht]

theorem Step.handles_other (hs : Step (.removal kind h) p q) {other : EntityKind}
    (ho : other ≠ kind) : q.handles other = p.handles other := by
  cases hs with
  | removal => exact handles_without_of_ne p ho h _

theorem Step.mem_of_removal (hs : Step (.removal kind h) p q) : h ∈ p.handles kind := by
  cases hs with
  | removal hh ht => exact hh

theorem Step.inCapacity (hs : Step (.removal kind h) p q) (hcap : p.InCapacity) :
    q.InCapacity := by
  cases hs with
  | @removal _ _ _ tenant hh ht =>
    have hsize : ((p.table kind).vacate h.key tenant).size ≤ (p.table kind).size :=
      List.length_eraseIdx_le _ _
    have hle := Nat.le_trans hsize (hcap kind)
    intro other
    cases kind <;> cases other <;>
      first | exact hle | exact hcap .var | exact hcap .constraint

theorem Step.retires (hs : Step (.removal kind h) p q) : q.Retired 1 h := by
  have hid := hs.id_eq
  cases hs with
  | @removal _ _ _ tenant hh ht =>
    have hr := Table.retired_vacate ht
    refine ⟨(problem_of_mem hh).trans hid.symm, ?_⟩
    cases kind <;> exact hr

theorem Step.retired (hp : p.Consistent) (hs : Step c p q) (hr : p.Retired n h)
    (hn : n + c.removals < Table.generations) : q.Retired (n + c.removals) h := by
  obtain ⟨ho, hr⟩ := hr
  refine ⟨ho.trans hs.id_eq.symm, ?_⟩
  obtain ht | ⟨hroom, name, ht⟩ | ⟨other, tenant, rfl, -, htenant, ht⟩ := hs.table_cases kind
  · rw [ht]
    exact hr.mono (Nat.le_add_right n _)
  · rw [ht]
    exact (hr.entered (hp.lists kind) hroom name).mono (Nat.le_add_right n _)
  -- the slot may have a new tenant by now; if that one goes, it is one more generation
  · rw [ht]
    exact hr.vacate htenant hn

end Stepping

theorem Retired.mono (hr : p.Retired m h) (hmn : m ≤ n) : p.Retired n h :=
  ⟨hr.1, hr.2.mono hmn⟩

section Chains

theorem Steps.id_eq (hs : Steps allowed p n q) : q.id = p.id := by
  induction hs with
  | refl => rfl
  | tail _ _ hstep ih => exact hstep.id_eq.trans ih

theorem Steps.retired (hp : p.Consistent) (hs : Steps allowed p n q) (hr : p.Retired m h)
    (hn : m + n < Table.generations) : q.Retired (m + n) h := by
  induction hs with
  | refl => exact hr
  | tail hs' _ hstep ih =>
    rw [← Nat.add_assoc] at hn ⊢
    exact hstep.retired (hs'.consistent hp) (ih (by omega)) hn

theorem Steps.live_or_retired (hp : p.Consistent) (hs : Steps allowed p n q)
    (hh : h ∈ p.handles kind) (hn : n < Table.generations) :
    h ∈ q.handles kind ∨ q.Retired n h := by
  induction hs with
  | refl => exact .inl hh
  | @tail n q r c hs' _ hstep ih =>
    have hq := hs'.consistent hp
    obtain hlive | hr := ih (by omega)
    · obtain ht | ⟨-, name, ht⟩ | ⟨other, tenant, rfl, hother, htenant, ht⟩ :=
        hstep.table_cases kind
      · left
        rwa [handles_congr hstep.id_eq ht]
      · left
        rw [handles_entered hstep.id_eq ht, List.mem_append]
        exact .inl hlive
      -- what goes is the handle itself, or another one, and then only positions shift
      · by_cases he : h = other
        · subst he
          refine .inr ⟨(problem_of_mem hlive).trans hstep.id_eq.symm, ?_⟩
          rw [ht]
          exact (Table.retired_vacate htenant).mono (Nat.le_add_left 1 n)
        · left
          have herase := List.erase_eq_eraseIdx_of_idxOf
            (hq.idxOf_of_tenant hother htenant).symm
          rw [handles_vacate hstep.id_eq ht, ← herase]
          exact (List.mem_erase_of_ne he).mpr hlive
    · exact .inr (hstep.retired hq hr hn)

theorem Retired.notMem (hp : p.Consistent) (hr : p.Retired n h) : h ∉ p.handles kind := by
  intro hm
  obtain ⟨i, hi⟩ := List.mem_iff_getElem?.mp hm
  exact hr.2.notMem_order (hp.lists kind) (List.mem_of_getElem? (handles_getElem?.mp hi).2)

theorem Steps.live_between (hp : p.Consistent) (hq : Steps allowed p m q)
    (hr : Steps allowed q n r) (hn : m + n < Table.generations) (hh : h ∈ p.handles kind)
    (hlive : h ∈ r.handles kind) : h ∈ q.handles kind := by
  have hqc := hq.consistent hp
  obtain hm | hretired := hq.live_or_retired hp hh (by omega)
  · exact hm
  · exact absurd hlive ((hr.retired hqc hretired hn).notMem (hr.consistent hqc))

end Chains

section Gone

def Closed (p : Problem) : (kind : EntityKind) → Handle kind → Prop
  | .var, v => p.variableType v = Outcome.refuse .disposed ∧
    ∀ type, setVariableType v type p = .error (.refused .disposed) p
  | .constraint, c => p.linear c = Outcome.refuse .disposed ∧
    p.isEmpty c = Outcome.refuse .disposed ∧
    ∀ l, setLinear c l p = .error (.refused .disposed) p

/-- The entity of the handle does not exist for any operation of the problem. -/
structure Gone (p : Problem) (h : Handle kind) : Prop where
  disposed : p.isDisposed h = true
  unlisted : h ∉ p.handles kind
  unmade : ∀ (op : Operation) answer q, op.perform p = .ok answer q → q.InCapacity →
    h ∉ answer.made kind
  indexOf : p.indexOf h = Outcome.refuse .disposed
  nameOf : p.nameOf h = Outcome.refuse .disposed
  bound : p.bound h = Outcome.refuse .disposed
  lowerBound : p.lowerBound h = Outcome.refuse .disposed
  upperBound : p.upperBound h = Outcome.refuse .disposed
  value : p.value h = Outcome.refuse .disposed
  dual : p.dual h = Outcome.refuse .disposed
  setBound : ∀ b, setBound h b p = .error (.refused .disposed) p
  setLowerBound : ∀ lower, setLowerBound h lower p = .error (.refused .disposed) p
  setUpperBound : ∀ upper, setUpperBound h upper p = .error (.refused .disposed) p
  closed : p.Closed kind h
  dispose : dispose h p = .ok () p

theorem Retired.indexOf_eq (hr : p.Retired n h) : p.indexOf h = Outcome.refuse .disposed := by
  rw [Problem.indexOf_eq, if_pos hr.1, Table.indexOf?, hr.2.tenant?]
  rfl

theorem Retired.bound_eq (hr : p.Retired n h) : p.bound h = Outcome.refuse .disposed := by
  rw [bound, hr.indexOf_eq]
  rfl

theorem closed_of_indexOf (hi : p.indexOf h = Outcome.refuse .disposed) : p.Closed kind h := by
  cases kind with
  | var =>
    refine ⟨?_, fun type => ask_refused hi _⟩
    rw [variableType, hi]
    rfl
  | constraint =>
    have hentries : p.entriesOf h = Outcome.refuse .disposed := by
      rw [entriesOf, hi]
      rfl
    refine ⟨?_, ?_, fun l => ask_refused hi _⟩
    · rw [linear, hentries]
      rfl
    · rw [isEmpty, hentries]
      rfl

theorem Retired.dispose_eq (hr : p.Retired n h) : dispose h p = .ok () p := by
  have hown : ask (·.checkOwner h) p = .ok () p := ask_ok (by simp [checkOwner, hr.1])
  have hindex : (p.table kind).indexOf? h.key = none := by
    rw [Table.indexOf?, hr.2.tenant?]
    rfl
  simp only [dispose, Edit.bind_apply, hown, Edit.get_apply, hindex, Edit.pure_apply]

end Gone

section Made

theorem ok_of_ask {α β : Type} {read : Problem → Outcome α} {f : α → Edit β} {b : β}
    (hx : (ask read >>= f) p = .ok b q) : ∃ a, read p = .ok a ∧ f a p = .ok b q := by
  cases ha : read p with
  | error e =>
    rw [ask_refused ha] at hx
    cases hx
  | ok a =>
    simp only [Edit.bind_apply, ask_ok ha] at hx
    exact ⟨a, rfl, hx⟩

theorem Refuses.not_ok {α : Type} {x : Edit α} {a : α} (hr : Refuses x p) : x p ≠ .ok a q := by
  obtain ⟨e, he⟩ := hr
  rw [he]
  exact fun h => nomatch h

namespace Consistent

variable (hp : p.Consistent)
include hp

theorem vars_addVariable {name : String} {type : VarType} {v : Variable}
    (hx : addVariable name type p = .ok v q) : q.vars = p.vars ++ [v] := by
  obtain hr | ⟨-, ha⟩ := hp.addVariable_cases name type
  · exact absurd hx hr.not_ok
  · rw [hx] at ha
    cases ha
    exact vars_withColumn p _

theorem vars_addInteger {name : String} {b : Bound} {v : Variable} (hq : q.InCapacity)
    (hx : addInteger name b p = .ok v q) : q.vars = p.vars ++ [v] := by
  obtain hr | hlt := hp.refuses_or_lt_of_addInteger (by rwa [Edit.final_ok hx])
  · exact absurd hx hr.not_ok
  · obtain hr | ⟨-, ha⟩ := hp.addInteger_cases hlt name b
    · exact absurd hx hr.not_ok
    · rw [hx] at ha
      cases ha
      exact vars_withColumn p _

theorem constraints_addConstraint {name : String} {l : Option Linear} {b : Bound} {g : Constraint}
    (hx : addConstraint name l b p = .ok g q) : q.constraints = p.constraints ++ [g] := by
  obtain hr | ⟨-, ha⟩ := hp.addConstraint_cases name l b
  · exact absurd hx hr.not_ok
  · rw [hx] at ha
    cases ha
    exact constraints_withRow p _

theorem vars_appendDocument {d : Document} {created : List Variable} (hcap : p.InCapacity)
    (hq : q.InCapacity) (hx : appendDocument d p = .ok created q) :
    q.vars = p.vars ++ created := by
  cases hcheck : p.checkDocument d with
  | error e =>
    rw [refused_of_check hcheck] at hx
    cases hx
  | ok u =>
    obtain ⟨-, vs, r, hok, hr⟩ | ⟨-, e, r, herr, -⟩ :=
      hp.append_cases hcap (hp.checkDocument_eq_ok_iff.mp hcheck) (by rwa [Edit.final_ok hx])
    · rw [hx] at hok
      cases hok
      exact hr.vars
    · rw [hx] at herr
      cases herr

omit hp in
theorem appended_of_load {files : Files} {name : String} {created : List Variable}
    (hx : load files name p = .ok created q) : ∃ d, appendDocument d p = .ok created q := by
  obtain ⟨text, -, hx⟩ := ok_of_ask hx
  obtain ⟨d, -, hx⟩ := ok_of_ask hx
  exact ⟨d, hx⟩

end Consistent

end Made

end Problem

namespace Operation

open Problem

variable {p q : Problem} {kind : EntityKind} {h : Handle kind}

theorem ok_of_answered {α : Type} {x : Edit α} {f : α → Answer} {answer : Answer}
    (h : (x >>= fun a => pure (f a)) p = .ok answer q) : ∃ a, x p = .ok a q ∧ answer = f a := by
  cases hx : x p with
  | ok a r =>
    simp only [Edit.bind_apply, hx, Edit.pure_apply] at h
    cases h
    exact ⟨a, rfl, rfl⟩
  | error e r =>
    simp only [Edit.bind_apply, hx] at h
    cases h

theorem disposals_of_made {op : Operation} {answer : Answer} (hop : op.perform p = .ok answer q)
    (hh : h ∈ answer.made kind) : op.disposals p = 0 := by
  cases op with
  | dispose other g =>
    obtain ⟨-, -, rfl⟩ := ok_of_answered hop
    cases hh
  | release c =>
    obtain ⟨s, -, rfl⟩ := ok_of_answered hop
    cases hh
  | _ => rfl

theorem live_of_made {op : Operation} {answer : Answer} (hp : p.Consistent) (hcap : p.InCapacity)
    (hop : op.perform p = .ok answer q) (hq : q.InCapacity) (hh : h ∈ answer.made kind) :
    h ∈ q.handles kind := by
  have hvar {vs : List Variable} {h : Variable} (hvs : q.vars = p.vars ++ vs) (hh : h ∈ vs) :
      h ∈ q.vars := hvs ▸ List.mem_append_right _ hh
  have hconstraint {gs : List Constraint} {h : Constraint}
      (hgs : q.constraints = p.constraints ++ gs) (hh : h ∈ gs) : h ∈ q.constraints :=
    hgs ▸ List.mem_append_right _ hh
  cases op with
  | addVariable name type =>
    obtain ⟨v, hx, rfl⟩ := ok_of_answered hop
    cases kind with
    | var => exact hvar (hp.vars_addVariable hx) hh
    | constraint => cases hh
  | addInteger name b =>
    obtain ⟨v, hx, rfl⟩ := ok_of_answered hop
    cases kind with
    | var => exact hvar (hp.vars_addInteger hq hx) hh
    | constraint => cases hh
  | addConstraint name l b =>
    obtain ⟨g, hx, rfl⟩ := ok_of_answered hop
    cases kind with
    | var => cases hh
    | constraint => exact hconstraint (hp.constraints_addConstraint hx) hh
  | restore s =>
    obtain ⟨g, hx, rfl⟩ := ok_of_answered hop
    cases kind with
    | var => cases hh
    | constraint => exact hconstraint (hp.constraints_addConstraint hx) hh
  | append d =>
    obtain ⟨vs, hx, rfl⟩ := ok_of_answered hop
    cases kind with
    | var => exact hvar (hp.vars_appendDocument hcap hq hx) hh
    | constraint => cases hh
  | load files name =>
    obtain ⟨vs, hx, rfl⟩ := ok_of_answered hop
    obtain ⟨d, hd⟩ := Consistent.appended_of_load hx
    cases kind with
    | var => exact hvar (hp.vars_appendDocument hcap hq hd) hh
    | constraint => cases hh
  | release c =>
    obtain ⟨s, -, rfl⟩ := ok_of_answered hop
    cases hh
  | _ =>
    obtain ⟨-, -, rfl⟩ := ok_of_answered hop
    cases hh

theorem step_of_disposed {op : Operation} (hp : p.Consistent) (hh : h ∈ p.handles kind)
    (hop : op.disposed? = some ⟨kind, h⟩) : Step (.removal kind h) p (op.after p) := by
  have hlive : ¬ p.isDisposed h = true := fun hd => hp.isDisposed_iff.mp hd hh
  cases op with
  | dispose other g =>
    cases hop
    have hm := (hp.moves_dispose h).answered fun _ => Answer.nothing
    rw [if_neg hlive] at hm
    exact hm.step Nat.one_ne_zero
  | release g =>
    cases hop
    have hm := (hp.moves_release g).answered Answer.definition
    rw [if_neg hlive] at hm
    exact hm.step Nat.one_ne_zero
  | _ => cases hop

end Operation

namespace Problem

variable {p q : Problem} {kind : EntityKind} {h : Handle kind} {n : Nat}

theorem Retired.gone (hp : p.Consistent) (hcap : p.InCapacity) (hr : p.Retired n h)
    (hn : n < Table.generations) : p.Gone h where
  disposed := hp.isDisposed_iff.mpr (hr.notMem hp)
  unlisted := hr.notMem hp
  unmade := by
    intro op answer q hop hq hh
    have hfinal : op.after p = q := Edit.final_ok hop
    have hsteps := op.steps hp hcap (hfinal.symm ▸ hq)
    rw [op.disposals_of_made hop hh, hfinal] at hsteps
    exact (hsteps.retired hp hr hn).notMem (hsteps.consistent hp)
      (op.live_of_made hp hcap hop hq hh)
  indexOf := hr.indexOf_eq
  nameOf := by
    rw [nameOf, hr.indexOf_eq]
    rfl
  bound := hr.bound_eq
  lowerBound := by
    rw [lowerBound, hr.bound_eq]
    rfl
  upperBound := by
    rw [upperBound, hr.bound_eq]
    rfl
  value := by
    rw [value, hr.indexOf_eq]
    rfl
  dual := by
    rw [dual, hr.indexOf_eq]
    rfl
  setBound := fun b => ask_refused hr.indexOf_eq _
  setLowerBound := fun lower => ask_refused hr.bound_eq _
  setUpperBound := fun upper => ask_refused hr.bound_eq _
  closed := closed_of_indexOf hr.indexOf_eq
  dispose := hr.dispose_eq

/-- Once disposed, a handle is gone in every later state. -/
theorem gone_of_disposed (hp : p.Reachable) (hh : h ∈ p.handles kind) {op : Operation}
    (hop : op.disposed? = some ⟨kind, h⟩) (hq : Leads (fun _ _ => True) (op.after p) n q)
    (hn : n + 1 < Table.generations) : q.Gone h := by
  have hstep := op.step_of_disposed hp.consistent hh hop
  have hc := hstep.consistent hp.consistent
  have hcap := hstep.inCapacity hp.inCapacity
  have hsteps : Steps (fun _ => True) (op.after p) n q :=
    hq.steps hc hcap fun _ _ _ _ _ _ hs => hs.mono fun _ _ => trivial
  have hr := hsteps.retired hc hstep.retires (by omega)
  exact hr.gone (hsteps.consistent hc) (hq.inCapacity hcap) (by omega)

theorem gone_reused :
    let x : Variable := ⟨⟨0⟩, ⟨0, 0⟩⟩
    let p := (Operation.addVariable "x" .real).after (new ⟨0⟩)
    let q := (Operation.addVariable "x" .real).after ((Operation.dispose .var x).after p)
    x ∈ p.handles .var ∧ q.vars = [⟨⟨0⟩, ⟨0, 1⟩⟩] ∧ q.Gone x := by
  intro x p q
  have hp : p.Reachable := .step _ (reachable_new ⟨0⟩) (by decide +kernel)
  have hx : x ∈ p.handles .var := by decide +kernel
  have hq : Leads (fun _ _ => True) ((Operation.dispose .var x).after p) _ q :=
    .step _ .refl trivial (by decide +kernel)
  exact ⟨hx, by decide +kernel, gone_of_disposed hp hx rfl hq (by decide +kernel)⟩

end Problem

end LinearProgram
