import LinearProgram.Proofs.Problem.Forms

namespace LinearProgram

namespace Operation

open Problem

variable {p q : Problem} {c : Constraint}

def Fails (op : Operation) (p : Problem) : Prop := ∃ e q, op.perform p = .error e q

def LeavesRow (c : Constraint) (p : Problem) (op : Operation) : Prop :=
  op.disposed? ≠ some ⟨.constraint, c⟩ ∧ ∀ l, op = .setLinear c l → op.Fails p

def reprices : Operation → Bool
  | setObjective _ | append _ | load _ _ => true
  | _ => false

def LeavesObjective (p : Problem) (op : Operation) : Prop := op.reprices = true → op.Fails p

theorem error_of_answered {α : Type} {x : Edit α} {f : α → Answer} {e : Failure Error}
    (h : (x >>= fun a => pure (f a)) p = .error e q) : x p = .error e q := by
  cases hx : x p with
  | ok a r =>
    simp only [Edit.bind_apply, hx, Edit.pure_apply] at h
    cases h
  | error e r =>
    simp only [Edit.bind_apply, hx] at h
    cases h
    rfl

theorem after_of_fails {op : Operation} (hp : p.Consistent) (hop : op.isComposite = false)
    (hroom : (op.after p).InCapacity) (hf : op.Fails p) : op.after p = p := by
  obtain ⟨e, q, he⟩ := hf
  obtain ⟨change, -, hm⟩ := op.moves hp hop hroom
  rw [after, Edit.final_error he]
  exact hm.unchanged he

theorem LeavesRow.steps {op : Operation} (h : LeavesRow c p op) (hp : p.Consistent)
    (hroom : (op.after p).InCapacity)
    (hs : Steps op.changes p (op.disposals p) (op.after p)) :
    Steps (fun change => change ≠ .entries c ∧ change ≠ .removal .constraint c) p
      (op.disposals p) (op.after p) := by
  by_cases hset : ∃ l, op = .setLinear c l
  · obtain ⟨l, rfl⟩ := hset
    rw [after_of_fails hp rfl hroom (h.2 l rfl)]
    exact .refl
  · refine hs.mono fun change hc => ?_
    cases op with
    | dispose kind g =>
      obtain rfl : change = .removal kind g := hc
      refine ⟨nofun, fun he => h.1 ?_⟩
      cases he
      rfl
    | release g =>
      obtain rfl : change = .removal .constraint g := hc
      refine ⟨nofun, fun he => h.1 ?_⟩
      cases he
      rfl
    | setLinear g l =>
      obtain rfl : change = .entries g := hc
      refine ⟨fun he => hset ⟨l, ?_⟩, nofun⟩
      cases he
      rfl
    | append d =>
      simp only [changes, List.mem_cons, List.not_mem_nil, or_false] at hc
      obtain rfl | rfl | rfl | rfl | rfl := hc <;> exact ⟨nofun, nofun⟩
    | load files name =>
      simp only [changes, List.mem_cons, List.not_mem_nil, or_false] at hc
      obtain rfl | rfl | rfl | rfl | rfl := hc <;> exact ⟨nofun, nofun⟩
    | restoreBounds kind s =>
      obtain ⟨g, -, rfl⟩ := hc
      exact ⟨nofun, nofun⟩
    | _ =>
      obtain rfl := hc
      exact ⟨nofun, nofun⟩

end Operation

namespace Problem

variable {p q : Problem} {c : Constraint} {l : Option Linear} {n : Nat}

theorem Consistent.steps_of_refused (hp : p.Consistent) (hcap : p.InCapacity) {d : Document}
    {e : Failure Error} (hx : appendDocument d p = .error e q) (hq : q.InCapacity) :
    Steps (· ≠ .prices) p 0 q := by
  cases hcheck : p.checkDocument d with
  | error e' =>
    rw [refused_of_check hcheck] at hx
    cases hx
    exact .refl
  | ok u =>
    have ha := hp.checkDocument_eq_ok_iff.mp hcheck
    obtain ⟨-, created, r, hok, -⟩ | ⟨-, created, e', r, h⟩ :=
      hp.append_or_stop hcap ha (by rwa [Edit.final_error hx])
    · rw [hx] at hok
      cases hok
    · rw [h.run] at hx
      cases hx
      -- what stopped it was a row, and the objective comes after the rows
      have hwalk : Walks (· ≠ .prices)
          (d.constraints.forM (addConstraintRecord (namedBy d created))) :=
        .forM (fun record _ => walks_addConstraintRecord nofun _ record)
          (Grows.addConstraintRecord _)
      have hfinal := Edit.final_error h.stopped
      have hrows := hwalk _ h.started.consistent (by rwa [hfinal])
      rw [hfinal] at hrows
      exact (hp.steps_withColumns nofun h.room ha.vars ha.varsDistinct).trans hrows

end Problem

namespace Operation

open Problem

variable {p q : Problem}

theorem error_of_ask {α β : Type} {read : Problem → Outcome α} {f : α → Edit β}
    {e : Failure Error} (hx : (ask read >>= f) p = .error e q) :
    q = p ∨ ∃ a, f a p = .error e q := by
  cases ha : read p with
  | error e' =>
    rw [ask_refused ha] at hx
    cases hx
    exact .inl rfl
  | ok a =>
    simp only [Edit.bind_apply, ask_ok ha] at hx
    exact .inr ⟨a, hx⟩

theorem refused_of_load {files : Files} {name : String} {e : Failure Error}
    (hx : Problem.load files name p = .error e q) :
    q = p ∨ ∃ d, appendDocument d p = .error e q := by
  unfold Problem.load at hx
  obtain hq | ⟨text, hx⟩ := error_of_ask hx
  · exact .inl hq
  · exact error_of_ask hx

theorem LeavesObjective.steps {op : Operation} (h : LeavesObjective p op) (hp : p.Consistent)
    (hcap : p.InCapacity) (hroom : (op.after p).InCapacity)
    (hs : Steps op.changes p (op.disposals p) (op.after p)) :
    Steps (· ≠ .prices) p (op.disposals p) (op.after p) := by
  cases op with
  | setObjective l =>
    rw [after_of_fails hp rfl hroom (h rfl)]
    exact .refl
  | append d =>
    obtain ⟨e, q, he⟩ := h rfl
    rw [after, Edit.final_error he] at hroom ⊢
    exact hp.steps_of_refused hcap (error_of_answered he) hroom
  | load files name =>
    obtain ⟨e, q, he⟩ := h rfl
    rw [after, Edit.final_error he] at hroom ⊢
    obtain rfl | ⟨d, hd⟩ := refused_of_load (error_of_answered he)
    · exact .refl
    · exact hp.steps_of_refused hcap hd hroom
  | restoreBounds kind s =>
    refine hs.mono ?_
    rintro change ⟨g, -, rfl⟩
    exact nofun
  | _ =>
    refine hs.mono ?_
    rintro change rfl
    exact nofun

end Operation

structure Linear.Shows (l : Option Linear) (ts : List Term) : Prop where
  terms : Linear.termsOf l = ts
  absent : l = none ↔ ts = []

namespace Problem

open Operation (LeavesRow LeavesObjective)

variable {p q : Problem} {c : Constraint} {l : Option Linear} {n : Nat}

/-- The constraint is added with the form, or its row is set to it. -/
def Gives (p : Problem) (c : Constraint) (l : Option Linear) (q : Problem) : Prop :=
  (∃ name b, addConstraint name l b p = .ok c q) ∨ setLinear c l p = .ok () q

theorem Gives.hasRow (h : p.Gives c l q) (hp : p.Consistent) (hq : q.InCapacity) :
    q.Consistent ∧ (∀ t ∈ Linear.termsOf l, t.var ∈ q.vars) ∧
      ∃ row, q.HasRow c row ∧ q.termsAt row = Linear.termsOf l := by
  obtain ⟨name, b, hx⟩ | hx := h
  · obtain hr | ⟨⟨hn, hl, hb⟩, ha⟩ := hp.addConstraint_cases name l b
    · exact absurd hx hr.not_ok
    · rw [hx] at ha
      cases ha
      refine ⟨hp.withRow (lt_capacity_of_withRow hq) hn hb (hp.rowOf_proper hl),
        fun t ht => (hl t ht).2, ⟨name, b, p.rowOf l⟩, hp.hasRow_withRow _, map_termAt_rowOf hl⟩
  · obtain hr | ⟨⟨hc, hl⟩, ha⟩ := hp.setLinear_cases c l
    · exact absurd hx hr.not_ok
    · rw [hx] at ha
      cases ha
      obtain ⟨row, hrow⟩ := hp.hasRow hc
      refine ⟨(Step.entries hc hl).consistent hp, fun t ht => (hl t ht).2,
        { row with entries := p.rowOf l }, ?_, map_termAt_rowOf hl⟩
      obtain ⟨i, hi, hr⟩ := hrow
      have hidx : i = p.constraints.idxOf c :=
        (hp.indexOf_eq_ok_iff_idxOf.mp (hp.indexOf_eq_ok_iff.mpr hi)).2
      refine ⟨i, hi, ?_⟩
      change (p.tableau.rows.modify (p.constraints.idxOf c) _)[i]? = _
      rw [List.getElem?_modify, hr]
      exact congrArg some (if_pos hidx.symm)

theorem Consistent.shows_objective (hp : p.Consistent) :
    ∃ m, p.objectiveLinear = .ok m ∧ Linear.Shows m p.objectiveForm.terms := by
  refine ⟨_, hp.objectiveLinear_eq, ?_⟩
  have hempty : p.objectiveForm.isEmpty = true ↔ p.objectiveForm.terms = [] := by
    rw [Linear.terms, List.map_eq_nil_iff]
    exact List.isEmpty_iff
  by_cases he : p.objectiveForm.isEmpty = true
  · rw [if_pos he]
    exact ⟨(hempty.mp he).symm, fun _ => hempty.mp he, fun _ => rfl⟩
  · rw [if_neg he]
    exact ⟨rfl, fun h => absurd h (Option.some_ne_none _), fun h => absurd (hempty.mpr h) he⟩

/-- What a constraint was given last is what it has, over the variables that are left; and so it is
with the objective. -/
theorem forms_last (hp : p.Reachable) :
    (∀ {c l p₁ n q}, p.Gives c l p₁ → p₁.InCapacity → Leads (LeavesRow c) p₁ n q →
      n < Table.generations → ∃ m, q.linear c = .ok m ∧ q.isEmpty c = .ok m.isNone ∧
        Linear.Shows m ((Linear.termsOf l).filter (·.var ∈ q.vars)) ∧
        ∀ t ∈ Linear.termsOf m, t.var ∈ p₁.vars) ∧
    ∀ {l p₁ n q}, setObjective l p = .ok () p₁ → Leads LeavesObjective p₁ n q →
      n < Table.generations → ∃ m, q.objectiveLinear = .ok m ∧
        Linear.Shows m
          (q.vars.filterMap fun v => (l.bind (·.coefficient? v)).map (⟨·, v⟩)) ∧
        ∀ t ∈ Linear.termsOf m, t.var ∈ p₁.vars := by
  constructor
  · intro c l p₁ n q hgives hcap hq hn
    obtain ⟨hp₁, hlive, row, hrow, hterms⟩ := hgives.hasRow hp.consistent hcap
    have hs := hq.steps hp₁ hcap fun r op hr _ hop hroom hs => hop.steps hr hroom hs
    obtain ⟨row', hrow', hterms'⟩ := hs.hasRow hp₁ (fun _ h => h) hn hrow
    obtain ⟨m, hm, hmterms, habsent, hempty⟩ := hrow'.linear_eq (hs.consistent hp₁)
    rw [hterms', hterms] at hmterms habsent hempty
    refine ⟨m, hm, ?_, ⟨hmterms, habsent⟩, ?_⟩
    · rw [hempty, Except.ok.injEq, Bool.eq_iff_iff, List.isEmpty_iff, ← habsent,
        Option.isNone_iff_eq_none]
    · rw [hmterms]
      exact fun t ht => hlive t (List.mem_filter.mp ht).1
  · intro l p₁ n q hset hq hn
    obtain hr | ⟨hl, ha⟩ := hp.consistent.setObjective_cases l
    · exact absurd hset hr.not_ok
    rw [hset] at ha
    cases ha
    have hp₁ := (Step.prices hl).consistent hp.consistent
    have hs := hq.steps hp₁ hp.inCapacity fun r op hr hcap hop hroom hs =>
      hop.steps hr hcap hroom hs
    have hz : ∀ v ∉ p.vars, Linear.share l v = 0 := fun v hv =>
      Linear.share_eq_zero fun t ht he => hv (he ▸ (hl t ht).2)
    have hpriced := hs.priced hp₁ (fun _ h => h) hn (priced_revised hp.consistent) hz
    obtain ⟨m, hm, hshows⟩ := (hs.consistent hp₁).shows_objective
    rw [hpriced.terms_objectiveForm (hs.consistent hp₁)] at hshows
    simp only [term_of_share] at hshows
    refine ⟨m, hm, hshows, ?_⟩
    rw [hshows.terms]
    intro t ht
    obtain ⟨v, -, hv⟩ := List.mem_filterMap.mp ht
    obtain ⟨x, hx, rfl⟩ := Option.map_eq_some_iff.mp hv
    obtain ⟨l', rfl, hx'⟩ := Option.bind_eq_some_iff.mp hx
    have ht : (⟨x, v⟩ : Term) ∈ l'.terms := Linear.mem_terms.mpr hx'
    exact (hl _ ht).2

theorem forms_last_replaced :
    let x : Variable := ⟨⟨0⟩, ⟨0, 0⟩⟩
    let y : Variable := ⟨⟨0⟩, ⟨1, 0⟩⟩
    let c : Constraint := ⟨⟨0⟩, ⟨0, 0⟩⟩
    let l : Option Linear := some (.ofTerms [⟨1, x⟩, ⟨2, y⟩])
    let p := (Operation.addVariable "y" .real).after <|
      (Operation.addVariable "x" .real).after (new ⟨0⟩)
    let q := fun p₁ => (Operation.addVariable "z" .real).after <|
      (Operation.dispose .var x).after p₁
    (∃ m, (q ((Operation.addConstraint "c" l .free).after p)).linear c = .ok m ∧
      Linear.Shows m ((Linear.termsOf l).filter
        (·.var ∈ (q ((Operation.addConstraint "c" l .free).after p)).vars))) ∧
    ∃ m, (q ((Operation.setObjective l).after p)).objectiveLinear = .ok m ∧
      Linear.Shows m ((q ((Operation.setObjective l).after p)).vars.filterMap
        fun v => (l.bind (·.coefficient? v)).map (⟨·, v⟩)) := by
  intro x y c l p q
  have hp : p.Reachable :=
    .step _ (.step _ (reachable_new ⟨0⟩) (by decide +kernel)) (by decide +kernel)
  constructor
  · have hgives : p.Gives c l ((Operation.addConstraint "c" l .free).after p) := by
      refine .inl ⟨"c", .free, ?_⟩
      rw [Operation.after, Operation.perform, Edit.final_bind_pure]
      exact Edit.ok_of_answer? (by decide +kernel)
    have hdispose (q : Problem) : LeavesRow c q (.dispose .var x) := by
      simp [LeavesRow, Operation.disposed?]
    have hadd (q : Problem) : LeavesRow c q (.addVariable "z" .real) := by
      simp [LeavesRow, Operation.disposed?]
    obtain ⟨m, hm, -, hshows, -⟩ := (forms_last hp).1 hgives (by decide +kernel)
      (.step _ (.step _ .refl (hdispose _) (by decide +kernel)) (hadd _) (by decide +kernel))
      (by decide +kernel)
    exact ⟨m, hm, hshows⟩
  · have hset : setObjective l p = .ok () ((Operation.setObjective l).after p) := by
      rw [Operation.after, Operation.perform, Edit.final_bind_pure]
      exact Edit.ok_of_answer? (by decide +kernel)
    have hdispose (q : Problem) : LeavesObjective q (.dispose .var x) := by
      simp [LeavesObjective, Operation.reprices]
    have hadd (q : Problem) : LeavesObjective q (.addVariable "z" .real) := by
      simp [LeavesObjective, Operation.reprices]
    obtain ⟨m, hm, hshows, -⟩ := (forms_last hp).2 hset
      (.step _ (.step _ .refl (hdispose _) (by decide +kernel)) (hadd _) (by decide +kernel))
      (by decide +kernel)
    exact ⟨m, hm, hshows⟩

end Problem

end LinearProgram
