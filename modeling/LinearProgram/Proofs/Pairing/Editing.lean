import LinearProgram.Proofs.Pairing.Reading

namespace LinearProgram.Problem

variable {α β γ δ : Type} {R : Pairing} {p q p' q' : Problem} {m n : Nat}
  {rel : Pairing → α → β → Prop} {x : Edit α} {y : Edit β} {change change' : Change}

structure Accord (R : Pairing) (n : Nat) (rel : Pairing → α → β → Prop) (p q : Problem)
    (x : Edit α) (y : Edit β) : Prop where
  answers : Outcome.Paired (rel (R ⊔ Abreast (Edit.final x p) (Edit.final y q)))
    (Edit.outcome x p) (Edit.outcome y q)
  alike : Alike (R ⊔ Abreast (Edit.final x p) (Edit.final y q)) n (Edit.final x p) (Edit.final y q)

structure SteadyAccord (R : Pairing) (n : Nat) (rel : Pairing → α → β → Prop) (p q : Problem)
    (x : Edit α) (y : Edit β) : Prop extends Accord R n rel p q x y where
  kept : Abreast p q ≤ Abreast (Edit.final x p) (Edit.final y q)

theorem Accord.answered (h : Accord R n rel p q x y) {rel' : Pairing → γ → δ → Prop}
    {f : α → γ} {g : β → δ} (hf : ∀ S a b, rel S a b → rel' S (f a) (g b)) :
    Accord R n rel' p q (x >>= fun a => pure (f a)) (y >>= fun b => pure (g b)) where
  answers := by
    rw [Edit.final_bind_pure, Edit.final_bind_pure, Edit.outcome_bind_pure, Edit.outcome_bind_pure]
    exact h.answers.map fun a b => hf _ a b
  alike := by
    rw [Edit.final_bind_pure, Edit.final_bind_pure]
    exact h.alike

def Refusals (p q : Problem) (x : Edit α) (y : Edit β) : Prop :=
  ∃ e, x p = .error e p ∧ y q = .error e q

theorem refusals_or_of_ask {read read' : Problem → Outcome γ} {f : γ → Edit α} {g : γ → Edit β}
    {Q : Prop} (hread : read p = read' q)
    (hf : ∀ c, read p = .ok c → Refusals p q (f c) (g c) ∨ Q) :
    Refusals p q (ask read >>= f) (ask read' >>= g) ∨ Q := by
  cases hc : read p with
  | error e => exact .inl ⟨e, ask_refused hc f, ask_refused (hread ▸ hc) g⟩
  | ok c =>
    refine (hf c hc).imp_left ?_
    rintro ⟨e, hx, hy⟩
    exact ⟨e, (ask_passed hc f).trans hx, (ask_passed (hread ▸ hc) g).trans hy⟩

namespace SteadyAccord

theorem of_failures {e : Failure Error} (hx : x p = .error e p') (hy : y q = .error e q')
    (halike : Alike (R ⊔ Abreast p' q') n p' q') (hkept : Abreast p q ≤ Abreast p' q') :
    SteadyAccord R n rel p q x y := by
  refine ⟨⟨?_, ?_⟩, ?_⟩
  · rw [Edit.outcome_error hx, Edit.outcome_error hy]
    exact .error e
  · rwa [Edit.final_error hx, Edit.final_error hy]
  · rwa [Edit.final_error hx, Edit.final_error hy]

theorem of_answers {a : α} {b : β} (hx : x p = .ok a p') (hy : y q = .ok b q')
    (hrel : rel (R ⊔ Abreast p' q') a b) (halike : Alike (R ⊔ Abreast p' q') n p' q')
    (hkept : Abreast p q ≤ Abreast p' q') : SteadyAccord R n rel p q x y := by
  refine ⟨⟨?_, ?_⟩, ?_⟩
  · rw [Edit.outcome_ok hx, Edit.outcome_ok hy, Edit.final_ok hx, Edit.final_ok hy]
    exact .ok hrel
  · rwa [Edit.final_ok hx, Edit.final_ok hy]
  · rwa [Edit.final_ok hx, Edit.final_ok hy]

theorem cases (h : SteadyAccord R n rel p q x y) : ∃ p' q',
    Alike (R ⊔ Abreast p' q') n p' q' ∧ Abreast p q ≤ Abreast p' q' ∧
      ((∃ e, x p = .error e p' ∧ y q = .error e q') ∨
        ∃ a b, rel (R ⊔ Abreast p' q') a b ∧ x p = .ok a p' ∧ y q = .ok b q') := by
  refine ⟨_, _, h.alike, h.kept, ?_⟩
  cases hx : Edit.outcome x p with
  | error e =>
    have hy := h.answers.eq_error hx
    exact .inl ⟨e, Edit.error_of_outcome hx, Edit.error_of_outcome hy⟩
  | ok a =>
    obtain ⟨b, hy, hrel⟩ := h.answers.eq_ok hx
    exact .inr ⟨a, b, hrel, Edit.ok_of_outcome hx, Edit.ok_of_outcome hy⟩

theorem congr {x' : Edit α} {y' : Edit β} (h : SteadyAccord R n rel p q x y) (hx : x' p = x p)
    (hy : y' q = y q) : SteadyAccord R n rel p q x' y' := by
  obtain ⟨p', q', halike, hkept, ⟨e, hp, hq⟩ | ⟨a, b, hrel, hp, hq⟩⟩ := h.cases
  · exact .of_failures (hx.trans hp) (hy.trans hq) halike hkept
  · exact .of_answers (hx.trans hp) (hy.trans hq) hrel halike hkept

theorem of_refusals (h : Alike R n p q) (hxy : Refusals p q x y) :
    SteadyAccord R n rel p q x y := by
  obtain ⟨e, hx, hy⟩ := hxy
  refine .of_failures hx hy ?_ le_rfl
  rwa [sup_eq_left.mpr h.abreast]

theorem ask (h : Alike R n p q) {read read' : Problem → Outcome γ} {f : γ → Edit α}
    {g : γ → Edit β} (hread : read p = read' q)
    (hf : ∀ c, read p = .ok c → SteadyAccord R n rel p q (f c) (g c)) :
    SteadyAccord R n rel p q (Problem.ask read >>= f) (Problem.ask read' >>= g) := by
  cases hc : read p with
  | error e => exact .of_refusals h ⟨e, ask_refused hc f, ask_refused (hread ▸ hc) g⟩
  | ok c => exact (hf c hc).congr (ask_passed hc f) (ask_passed (hread ▸ hc) g)

theorem of_unchanged (h : Alike R n p q) {a : α} {b : β} (hx : x p = .ok a p)
    (hy : y q = .ok b q) (hrel : rel R a b) : SteadyAccord R n rel p q x y := by
  have hR := sup_eq_left.mpr h.abreast
  refine .of_answers hx hy ?_ ?_ le_rfl
  · rwa [hR]
  · rwa [hR]

theorem of_steps (h : Alike R n p q) {a : α} {b : β} (hx : x p = .ok a p')
    (hy : y q = .ok b q') (hs : Step change p p') (hs' : Step change' q q')
    (hc : change.removals = 0) (hc' : change'.removals = 0) (hsame : SameContents p' q')
    (hrel : rel (R ⊔ Abreast p' q') a b) : SteadyAccord R n rel p q x y :=
  .of_answers hx hy hrel (h.advance hs hs' hc hc' hsame) (Alike.abreast_mono hs hs' hc hc')

end SteadyAccord

namespace SameContents

variable (h : SameContents p q)
include h

theorem revised {t t' : Tableau} (ht : t = t') : SameContents (p.revised t) (q.revised t') :=
  ⟨ht, h.name, h.objectiveName, rfl, rfl, h.scale⟩

theorem withColumn (c : Column) : SameContents (p.withColumn c) (q.withColumn c) := by
  refine ⟨?_, h.name, h.objectiveName, rfl, rfl, h.scale⟩
  change Tableau.mk (p.tableau.columns ++ [c]) _ _ = Tableau.mk (q.tableau.columns ++ [c]) _ _
  rw [h.tableau]

theorem withRow (r : Row) : SameContents (p.withRow r) (q.withRow r) := by
  refine ⟨?_, h.name, h.objectiveName, rfl, rfl, h.scale⟩
  change Tableau.mk _ (p.tableau.rows ++ [r]) _ = Tableau.mk _ (q.tableau.rows ++ [r]) _
  rw [h.tableau]

theorem without {kind : EntityKind} (g g' : Handle kind) {tenant tenant' : Tenant}
    (hi : tenant.index = tenant'.index) : SameContents (p.without g tenant) (q.without g' tenant')
    where
  tableau := by
    have ht : p.tableau.without kind tenant.index = q.tableau.without kind tenant'.index := by
      rw [h.tableau, hi]
    cases kind <;> exact ht
  name := by cases kind <;> exact h.name
  objectiveName := by cases kind <;> exact h.objectiveName
  status := by cases kind <;> exact h.status
  solution := by
    have hs : p.solution.map (·.without kind tenant.index) =
        q.solution.map (·.without kind tenant'.index) := by rw [h.solution, hi]
    cases kind <;> exact hs
  scale := by cases kind <;> exact h.scale

end SameContents

namespace Alike

variable (h : Alike R n p q) {kind : EntityKind} {g g' : Handle kind} {l l' : Option Linear}
include h

section Arguments

theorem resolve_eq (hl : Option.Rel (Linear.Paired R) l l') : p.resolve l = q.resolve l' := by
  cases hl with
  | none => rfl
  | some hl =>
    refine Outcome.mapM_congr hl.terms fun t t' ht => ?_
    simp only [resolveTerm, ht.coefficient, h.index_eq ht.var]

theorem takes (hl : Option.Rel (Linear.Paired R) l l') {entries : List Entry}
    (hp : p.resolve l = .ok entries) : p.Takes l ∧ q.Takes l' ∧ p.rowOf l = q.rowOf l' := by
  have hq := (h.resolve_eq hl).symm.trans hp
  obtain ⟨htakes, hrow⟩ := h.left.resolve_eq_ok_iff.mp hp
  obtain ⟨htakes', hrow'⟩ := h.right.resolve_eq_ok_iff.mp hq
  exact ⟨htakes, htakes', hrow.symm.trans hrow'⟩

theorem shares_eq (hl : Option.Rel (Linear.Paired R) l l') :
    p.vars.map (Linear.share l) = q.vars.map (Linear.share l') := by
  have hshares : List.Forall₂ Eq (p.vars.map (Linear.share l)) (q.vars.map (Linear.share l')) := by
    refine List.rel_map (fun v v' hv => ?_) (h.handles .var)
    cases hl with
    | none => rfl
    | some hl => simp only [Linear.share, Option.bind_some, hl.coefficient?_eq h.oneToOne hv]
  rwa [List.forall₂_eq_eq_eq] at hshares

theorem live_of_index {i : Nat} (hg : R kind g g') (hi : p.indexOf g = .ok i) :
    g ∈ p.handles kind ∧ g' ∈ q.handles kind ∧
      (p.handles kind).idxOf g = (q.handles kind).idxOf g' := by
  have hm := (h.left.indexOf_eq_ok_iff_idxOf.mp hi).1
  exact ⟨hm, (h.mem_iff hg).mp hm, h.idxOf_eq hg hm⟩

theorem nameable {name : String} (hc : p.checkName kind name = .ok ()) :
    Nameable (p.tableau.names kind) name ∧ Nameable (q.tableau.names kind) name :=
  ⟨h.left.checkName_eq_ok_iff.mp hc, h.right.checkName_eq_ok_iff.mp (h.checkName_eq kind name ▸ hc)⟩

omit h in
theorem nextHandles {hs hs' : Handle kind} (hp : p'.handles kind = p.handles kind ++ [hs])
    (hq : q'.handles kind = q.handles kind ++ [hs'])
    (hlen : (p.handles kind).length = (q.handles kind).length) :
    (R ⊔ Abreast p' q') kind hs hs' := by
  refine .inr ⟨(p.handles kind).length, ?_, ?_⟩
  · rw [hp, List.getElem?_concat_length]
  · rw [hq, hlen, List.getElem?_concat_length]

end Arguments

section Adding

variable {name : String} {b : Bound}

theorem addVariable (type : VarType)
    (hroom : (Edit.final (addVariable name type) p).InCapacity) :
    SteadyAccord R n (fun S => S .var) p q (addVariable name type) (addVariable name type) := by
  have hguards : Refusals p q (Problem.addVariable name type) (Problem.addVariable name type) ∨
      Nameable (p.tableau.names .var) name ∧ Nameable (q.tableau.names .var) name := by
    unfold Problem.addVariable
    exact refusals_or_of_ask (h.checkName_eq .var name) fun _ hc => .inr (h.nameable hc)
  obtain hr | ⟨hn, hn'⟩ := hguards
  · exact .of_refusals h hr
  · have hx := h.left.addVariable_eq hn type
    have hy := h.right.addVariable_eq hn' type
    rw [Edit.final_ok hx] at hroom
    have hlt := lt_capacity_of_withColumn hroom
    have hlt' := hlt
    rw [h.size_columns_eq] at hlt'
    exact .of_steps h hx hy (.fresh hlt hn type) (.fresh hlt' hn' type) rfl rfl
      (h.same.withColumn _) (nextHandles (vars_withColumn p _) (vars_withColumn q _)
        (h.length_handles_eq .var))

theorem addInteger (hroom : (Edit.final (addInteger name b) p).InCapacity) :
    SteadyAccord R n (fun S => S .var) p q (addInteger name b) (addInteger name b) := by
  have hguards : Refusals p q (Problem.addInteger name b) (Problem.addInteger name b) ∨
      (Nameable (p.tableau.names .var) name ∧ Nameable (q.tableau.names .var) name) ∧
        b.hasNaN = false := by
    unfold Problem.addInteger
    refine refusals_or_of_ask rfl fun _ hb => ?_
    have hbound := Bound.validate_eq_ok_iff.mp hb
    unfold Problem.addVariable
    simp only [bind_assoc]
    exact refusals_or_of_ask (h.checkName_eq .var name) fun _ hc => .inr ⟨h.nameable hc, hbound⟩
  obtain hr | ⟨⟨hn, hn'⟩, hb⟩ := hguards
  · exact .of_refusals h hr
  · have hlt := h.left.lt_capacity_of_addInteger hn hb hroom
    have hlt' := hlt
    rw [h.size_columns_eq] at hlt'
    exact .of_steps h (h.left.addInteger_eq hlt hn hb) (h.right.addInteger_eq hlt' hn' hb)
      (.column hlt hn hb rfl) (.column hlt' hn' hb rfl) rfl rfl (h.same.withColumn _)
      (nextHandles (vars_withColumn p _) (vars_withColumn q _) (h.length_handles_eq .var))

theorem addConstraint (hl : Option.Rel (Linear.Paired R) l l')
    (hroom : (Edit.final (addConstraint name l b) p).InCapacity) :
    SteadyAccord R n (fun S => S .constraint) p q (addConstraint name l b)
      (addConstraint name l' b) := by
  have hguards : Refusals p q (Problem.addConstraint name l b) (Problem.addConstraint name l' b) ∨
      (Nameable (p.tableau.names .constraint) name ∧
          Nameable (q.tableau.names .constraint) name) ∧
        (p.Takes l ∧ q.Takes l' ∧ p.rowOf l = q.rowOf l') ∧ b.hasNaN = false := by
    unfold Problem.addConstraint
    refine refusals_or_of_ask (h.checkName_eq .constraint name) fun _ hc => ?_
    refine refusals_or_of_ask (h.resolve_eq hl) fun _ hr => ?_
    refine refusals_or_of_ask rfl fun _ hb => .inr ?_
    exact ⟨h.nameable hc, h.takes hl hr, Bound.validate_eq_ok_iff.mp hb⟩
  obtain hr | ⟨⟨hn, hn'⟩, ⟨htakes, htakes', hrow⟩, hb⟩ := hguards
  · exact .of_refusals h hr
  · have hx := h.left.addConstraint_eq hn htakes hb
    have hy := h.right.addConstraint_eq hn' htakes' hb
    rw [Edit.final_ok hx] at hroom
    have hlt := lt_capacity_of_withRow hroom
    have hlt' := hlt
    rw [h.size_rows_eq] at hlt'
    have hs' := Step.row hlt' hn' hb htakes'
    rw [← hrow] at hy hs'
    exact .of_steps h hx hy (.row hlt hn hb htakes) hs' rfl rfl (h.same.withRow _)
      (nextHandles (constraints_withRow p _) (constraints_withRow q _)
        (h.length_handles_eq .constraint))

end Adding

section Changing

theorem setVariableType {v v' : Variable} (hv : R .var v v') (type : VarType) :
    SteadyAccord R n ⊤ p q (setVariableType v type) (setVariableType v' type) := by
  have hguards : Refusals p q (Problem.setVariableType v type) (Problem.setVariableType v' type) ∨
      v ∈ p.vars ∧ v' ∈ q.vars ∧ p.vars.idxOf v = q.vars.idxOf v' := by
    unfold Problem.setVariableType
    exact refusals_or_of_ask (h.index_eq hv) fun _ hi => .inr (h.live_of_index hv hi)
  obtain hr | ⟨hm, hm', hidx⟩ := hguards
  · exact .of_refusals h hr
  · refine .of_steps h (h.left.setVariableType_eq hm type) (h.right.setVariableType_eq hm' type)
      (.type type hm) (.type type hm') rfl rfl (h.same.revised ?_) trivial
    rw [h.same.tableau, hidx]

theorem setBound (hg : R kind g g') (b : Bound) :
    SteadyAccord R n ⊤ p q (setBound g b) (setBound g' b) := by
  have hguards : Refusals p q (Problem.setBound g b) (Problem.setBound g' b) ∨
      (g ∈ p.handles kind ∧ g' ∈ q.handles kind ∧
        (p.handles kind).idxOf g = (q.handles kind).idxOf g') ∧ b.hasNaN = false := by
    unfold Problem.setBound
    refine refusals_or_of_ask (h.index_eq hg) fun _ hi => ?_
    refine refusals_or_of_ask rfl fun _ hb => .inr ?_
    exact ⟨h.live_of_index hg hi, Bound.validate_eq_ok_iff.mp hb⟩
  obtain hr | ⟨⟨hm, hm', hidx⟩, hb⟩ := hguards
  · exact .of_refusals h hr
  · refine .of_steps h (h.left.setBound_eq hm hb) (h.right.setBound_eq hm' hb)
      (.bound hm hb) (.bound hm' hb) rfl rfl (h.same.revised ?_) trivial
    rw [h.same.tableau, hidx]

theorem setLowerBound (hg : R kind g g') (lower : Option Float) :
    SteadyAccord R n ⊤ p q (setLowerBound g lower) (setLowerBound g' lower) :=
  .ask h (h.bound_eq hg) fun b _ => h.setBound hg (b.withLower lower)

theorem setUpperBound (hg : R kind g g') (upper : Option Float) :
    SteadyAccord R n ⊤ p q (setUpperBound g upper) (setUpperBound g' upper) :=
  .ask h (h.bound_eq hg) fun b _ => h.setBound hg (b.withUpper upper)

theorem setLinear {c c' : Constraint} (hc : R .constraint c c')
    (hl : Option.Rel (Linear.Paired R) l l') :
    SteadyAccord R n ⊤ p q (setLinear c l) (setLinear c' l') := by
  have hguards : Refusals p q (Problem.setLinear c l) (Problem.setLinear c' l') ∨
      (c ∈ p.constraints ∧ c' ∈ q.constraints ∧
        p.constraints.idxOf c = q.constraints.idxOf c') ∧
        p.Takes l ∧ q.Takes l' ∧ p.rowOf l = q.rowOf l' := by
    unfold Problem.setLinear
    refine refusals_or_of_ask (h.index_eq hc) fun _ hi => ?_
    exact refusals_or_of_ask (h.resolve_eq hl) fun _ hr =>
      .inr ⟨h.live_of_index hc hi, h.takes hl hr⟩
  obtain hr | ⟨⟨hm, hm', hidx⟩, htakes, htakes', hrow⟩ := hguards
  · exact .of_refusals h hr
  · refine .of_steps h (h.left.setLinear_eq hm htakes) (h.right.setLinear_eq hm' htakes')
      (.entries hm htakes) (.entries hm' htakes') rfl rfl (h.same.revised ?_) trivial
    rw [h.same.tableau, hidx, hrow]

theorem setObjective (hl : Option.Rel (Linear.Paired R) l l') :
    SteadyAccord R n ⊤ p q (setObjective l) (setObjective l') := by
  have hguards : Refusals p q (Problem.setObjective l) (Problem.setObjective l') ∨
      p.Takes l ∧ q.Takes l' ∧ p.rowOf l = q.rowOf l' := by
    unfold Problem.setObjective
    exact refusals_or_of_ask (h.resolve_eq hl) fun _ hr => .inr (h.takes hl hr)
  obtain hr | ⟨htakes, htakes', -⟩ := hguards
  · exact .of_refusals h hr
  · refine .of_steps h (h.left.setObjective_eq htakes) (h.right.setObjective_eq htakes')
      (.prices htakes) (.prices htakes') rfl rfl (h.same.revised ?_) trivial
    rw [h.same.tableau, h.shares_eq hl]

theorem setDirection (direction : Direction) :
    SteadyAccord R n ⊤ p q (setDirection direction) (setDirection direction) := by
  refine .of_steps h (setDirection_eq direction) (setDirection_eq direction)
    (.direction direction) (.direction direction) rfl rfl (h.same.revised ?_) trivial
  rw [h.same.tableau]

theorem setName (name : Option String) :
    SteadyAccord R n ⊤ p q (setName name) (setName name) := by
  refine .ask h rfl fun _ hn => ?_
  exact .of_steps h rfl rfl (.name hn) (.name hn) rfl rfl { h.same with name := rfl } trivial

theorem setObjectiveName (name : Option String) :
    SteadyAccord R n ⊤ p q (setObjectiveName name) (setObjectiveName name) := by
  refine .ask h rfl fun _ hn => ?_
  exact .of_steps h rfl rfl (.objectiveName hn) (.objectiveName hn) rfl rfl
    { h.same with objectiveName := rfl } trivial

theorem recordSolution (status : Status) (values : Option Solution) :
    SteadyAccord R n ⊤ p q (recordSolution status values) (recordSolution status values) := by
  have hread : p.accepted status values = q.accepted status values := by
    simp only [accepted, h.size_columns_eq, h.size_rows_eq]
  refine .ask h hread fun solution hs => ?_
  have hs' := hread.symm.trans hs
  obtain ⟨hsome, hfits⟩ := Consistent.accepted_fits hs
  obtain ⟨-, hfits'⟩ := Consistent.accepted_fits hs'
  rw [h.left.size_columns, h.left.size_rows] at hfits
  rw [h.right.size_columns, h.right.size_rows] at hfits'
  exact .of_steps h rfl rfl (.outcome hsome hfits) (.outcome hsome hfits') rfl rfl
    { h.same with status := rfl, solution := rfl } trivial

theorem rescale (digits : UInt32) :
    SteadyAccord R n ⊤ p q (modify fun p => p.withScale digits)
      (modify fun p => p.withScale digits) :=
  .of_steps h rfl rfl (.scale digits) (.scale digits) rfl rfl { h.same with scale := rfl } trivial

end Changing

section Disposing

theorem removed {g g' : Handle kind} (hg : R kind g g') {a : α} {b : β} (hx : x p = .ok a p')
    (hy : y q = .ok b q') (hs : Step (.removal kind g) p p') (hs' : Step (.removal kind g') q q')
    (hsame : SameContents p' q') (hn : n + 1 < Table.generations)
    (hrel : rel (R ⊔ Abreast p' q') a b) : Accord R (n + 1) rel p q x y where
  answers := by
    rw [Edit.outcome_ok hx, Edit.outcome_ok hy, Edit.final_ok hx, Edit.final_ok hy]
    exact .ok hrel
  alike := by
    rw [Edit.final_ok hx, Edit.final_ok hy]
    exact h.withdraw hg hs hs' hsame hn

theorem tenants (hg : R kind g g') (hd : ¬ p.isDisposed g = true) :
    ∃ tenant tenant' : Tenant, tenant.index = tenant'.index ∧
      (g ∈ p.handles kind ∧ (p.table kind).tenant? g.key = some tenant) ∧
      g' ∈ q.handles kind ∧ (q.table kind).tenant? g'.key = some tenant' := by
  have hm : g ∈ p.handles kind := by
    by_contra hn
    exact hd (h.left.isDisposed_iff.mpr hn)
  have hm' := (h.mem_iff hg).mp hm
  obtain ⟨tenant, ht⟩ := h.left.tenant_of_mem hm
  obtain ⟨tenant', ht'⟩ := h.right.tenant_of_mem hm'
  refine ⟨tenant, tenant', ?_, ⟨hm, ht⟩, hm', ht'⟩
  rw [h.left.idxOf_of_tenant hm ht, h.right.idxOf_of_tenant hm' ht', h.idxOf_eq hg hm]

theorem dispose (hg : R kind g g')
    (hn : n + (if p.isDisposed g then 0 else 1) < Table.generations) :
    Accord R (n + if p.isDisposed g then 0 else 1) ⊤ p q (dispose g) (dispose g') := by
  by_cases hd : p.isDisposed g = true
  · rw [if_pos hd]
    cases h.stands hg with
    | live hpq => exact absurd hpq.mem_left (h.left.isDisposed_iff.mp hd)
    | retired hp hq =>
      exact (SteadyAccord.of_unchanged h hp.dispose_eq hq.dispose_eq trivial).toAccord
    | foreign hp hq =>
      have hrefused {r : Problem} {b : Handle kind} (hb : b.problem ≠ r.id) :
          Problem.dispose b r = .error (.refused (.invalid (.foreignHandle kind))) r :=
        ask_refused (if_neg hb) _
      exact (SteadyAccord.of_refusals h ⟨_, hrefused hp, hrefused hq⟩).toAccord
  · rw [if_neg hd] at hn ⊢
    obtain ⟨tenant, tenant', hi, ⟨hm, ht⟩, hm', ht'⟩ := h.tenants hg hd
    exact h.removed hg (h.left.dispose_eq (problem_of_mem hm) ht)
      (h.right.dispose_eq (problem_of_mem hm') ht') (.removal hm ht) (.removal hm' ht')
      (h.same.without g g' hi) hn trivial

theorem release {c c' : Constraint} (hc : R .constraint c c')
    (hn : n + (if p.isDisposed c then 0 else 1) < Table.generations) :
    Accord R (n + if p.isDisposed c then 0 else 1) ConstraintSnapshot.Paired p q
      (ConstraintSnapshot.release c) (ConstraintSnapshot.release c') := by
  have hcapture := h.capture_definition_paired hc
  by_cases hd : p.isDisposed c = true
  · rw [if_pos hd]
    cases hs : ConstraintSnapshot.capture p c with
    | error e =>
      have hs' := hcapture.eq_error hs
      exact (SteadyAccord.of_refusals h ⟨e, ask_refused hs _, ask_refused hs' _⟩).toAccord
    | ok s =>
      obtain ⟨name, hname, -⟩ := Outcome.bind_eq_ok.mp hs
      obtain ⟨i, hi, -⟩ := Outcome.bind_eq_ok.mp hname
      exact absurd (h.live_of_index hc hi).1 (h.left.isDisposed_iff.mp hd)
  · rw [if_neg hd] at hn ⊢
    obtain ⟨tenant, tenant', hi, ⟨hm, ht⟩, hm', ht'⟩ := h.tenants hc hd
    obtain ⟨s, hs⟩ := h.left.capture_eq hm
    obtain ⟨s', hs', hpair⟩ := hcapture.eq_ok hs
    exact h.removed hc (h.left.release_eq hm ht hs) (h.right.release_eq hm' ht' hs')
      (.removal hm ht) (.removal hm' ht') (h.same.without c c' hi) hn (hpair.mono le_sup_left)

end Disposing

end Alike

end LinearProgram.Problem
