import LinearProgram.Proofs.Problem.Lasting

namespace LinearProgram

def Problem.Change.IsQuiet : Problem.Change → Prop
  | .removal _ _ | .title => True
  | _ => False

namespace Operation

open Problem

variable {p : Problem} {op : Operation}

def renames : Operation → Bool
  | setName _ | setObjectiveName _ => true
  | _ => false

/-- The operation disposes an entity, gives a title, or fails. -/
def Incidental (p : Problem) (op : Operation) : Prop :=
  op.disposed?.isSome = true ∨ op.renames = true ∨ op.Fails p

/-- The operation is incidental, and does not fail after a part of its changes. -/
def Quiet (p : Problem) (op : Operation) : Prop :=
  op.Incidental p ∧ (op.isComposite = true → op.after p = p)

theorem disposals_of_not_isSome (h : ¬ op.disposed?.isSome = true) : op.disposals p = 0 := by
  rw [Option.not_isSome_iff_eq_none] at h
  rw [disposals, h]

theorem Quiet.steps (h : op.Quiet p) (hp : p.Consistent) (hroom : (op.after p).InCapacity)
    (hs : Steps op.changes p (op.disposals p) (op.after p)) :
    Steps Change.IsQuiet p (op.disposals p) (op.after p) := by
  by_cases hd : op.disposed?.isSome = true
  · refine hs.mono fun change hc => ?_
    cases op with
    | dispose kind g =>
      obtain rfl := hc
      trivial
    | release g =>
      obtain rfl := hc
      trivial
    | _ => cases hd
  by_cases hn : op.renames = true
  · refine hs.mono fun change hc => ?_
    cases op with
    | setName name =>
      obtain rfl := hc
      trivial
    | setObjectiveName name =>
      obtain rfl := hc
      trivial
    | _ => cases hn
  · have hafter : op.after p = p := by
      by_cases hop : op.isComposite = true
      · exact h.2 hop
      · obtain hd' | hn' | hf := h.1
        · exact absurd hd' hd
        · exact absurd hn' hn
        · exact after_of_fails hp (by simpa using hop) hroom hf
    rw [hafter, disposals_of_not_isSome hd]
    exact .refl

end Operation

namespace Problem

variable {p q r : Problem} {kind : EntityKind} {xs ys : List Float} {s t : Solution}
  {change : Change} {n : Nat}

def Aligned (p q : Problem) (kind : EntityKind) (xs ys : List Float) : Prop :=
  ∀ (i j : Nat) (h : Handle kind), (p.handles kind)[i]? = some h →
    (q.handles kind)[j]? = some h → ys[j]? = xs[i]?

theorem Consistent.aligned_self (hp : p.Consistent) : Aligned p p kind xs xs := by
  intro i j h hi hj
  have hlt := (List.getElem?_eq_some_iff.mp hi).1
  rw [(List.getElem?_inj hlt (hp.handles_nodup kind)).mp (hi.trans hj.symm)]

theorem Aligned.congr (h : Aligned p q kind xs ys) (hr : r.handles kind = q.handles kind) :
    Aligned p r kind xs ys := by
  intro i j g hi hj
  exact h i j g hi (hr ▸ hj)

theorem Aligned.eraseIdx (h : Aligned p q kind xs ys) {k : Nat}
    (hr : r.handles kind = (q.handles kind).eraseIdx k) : Aligned p r kind xs (ys.eraseIdx k) := by
  intro i j g hi hj
  rw [hr, List.getElem?_eraseIdx] at hj
  rw [List.getElem?_eraseIdx]
  split
  · rename_i hjk
    rw [if_pos hjk] at hj
    exact h i j g hi hj
  · rename_i hjk
    rw [if_neg hjk] at hj
    exact h i (j + 1) g hi hj

structure Follows (p : Problem) (s : Solution) (q : Problem) (t : Solution) : Prop where
  objective : t.objective = s.objective
  values : Aligned p q .var s.columns t.columns
  duals : ∀ kind, Option.Rel (Aligned p q kind) (duals s kind) (Problem.duals t kind)

section Lists

theorem duals_without (t : Solution) (kind : EntityKind) (i : Nat) :
    duals (t.without kind i) kind = (duals t kind).map (·.eraseIdx i) := by
  cases kind <;> rfl

theorem duals_without_of_ne (t : Solution) {other : EntityKind} (ho : other ≠ kind) (i : Nat) :
    duals (t.without kind i) other = duals t other := by
  cases kind <;> cases other <;> first | rfl | exact absurd rfl ho

end Lists

namespace Follows

theorem congr (h : Follows p s q t) (hr : ∀ kind, r.handles kind = q.handles kind) :
    Follows p s r t where
  objective := h.objective
  values := h.values.congr (hr .var)
  duals := fun kind => Outcome.rel_mono (h.duals kind) fun _ _ ha => ha.congr (hr kind)

theorem without (h : Follows p s q t) (g : Handle kind) (tenant : Tenant) :
    Follows p s (q.without g tenant) (t.without kind tenant.index) where
  objective := by cases kind <;> exact h.objective
  values := by
    cases kind with
    | var => exact h.values.eraseIdx (handles_without q g tenant)
    | constraint => exact h.values.congr (handles_without_of_ne q (by decide) g tenant)
  duals := by
    intro other
    by_cases ho : other = kind
    · subst ho
      rw [duals_without]
      exact Outcome.rel_map (h.duals other) fun _ _ ha => ha.eraseIdx (handles_without q g tenant)
    · rw [duals_without_of_ne t ho]
      exact Outcome.rel_mono (h.duals other) fun _ _ ha => ha.congr (handles_without_of_ne q ho g tenant)

end Follows

structure Remembers (p : Problem) (s : Solution) (q : Problem) : Prop where
  live : ∀ kind, ∀ h ∈ q.handles kind, h ∈ p.handles kind
  status : q.status = p.status
  scale : q.valueScale = p.valueScale
  solution : ∃ t, q.solution = some t ∧ Follows p s q t
  rows : ∀ c row, p.HasRow c row → c ∈ q.constraints →
    ∃ row', q.HasRow c row' ∧ q.termsAt row' = (p.termsAt row).filter (·.var ∈ q.vars)

theorem Step.live_of_quiet (hs : Step change p q) (hc : change.IsQuiet)
    {h : Handle kind} (hh : h ∈ q.handles kind) : h ∈ p.handles kind := by
  cases hs with
  | @removal _ other g tenant hg ht =>
    by_cases ho : kind = other
    · subst ho
      rw [handles_without] at hh
      exact List.mem_of_mem_eraseIdx hh
    · rwa [handles_without_of_ne p ho] at hh
  | name | objectiveName => exact hh
  | _ => cases hc

theorem Remembers.step (h : Remembers p s q) (hq : q.Consistent)
    (hs : Step change q r) (hc : change.IsQuiet) : Remembers p s r where
  live := fun kind g hg => h.live kind g (hs.live_of_quiet hc hg)
  status := by
    cases hs with
    | @removal _ kind g tenant => cases kind <;> exact h.status
    | name | objectiveName => exact h.status
    | _ => cases hc
  scale := by
    cases hs with
    | @removal _ kind g tenant => cases kind <;> exact h.scale
    | name | objectiveName => exact h.scale
    | _ => cases hc
  solution := by
    obtain ⟨t, ht, hf⟩ := h.solution
    cases hs with
    | @removal _ kind g tenant =>
      refine ⟨t.without kind tenant.index, ?_, hf.without g tenant⟩
      have hsome : q.solution.map (·.without kind tenant.index) =
          some (t.without kind tenant.index) := by rw [ht, Option.map_some]
      cases kind <;> exact hsome
    | name | objectiveName => exact ⟨t, ht, hf.congr fun kind => by cases kind <;> rfl⟩
    | _ => cases hc
  rows := by
    intro c row hrow hcr
    have hcq : c ∈ q.constraints := hs.live_of_quiet hc hcr
    obtain ⟨row₁, hrow₁, hterms₁⟩ := h.rows c row hrow hcq
    -- the constraint is live after the step, so the step did not remove it
    have hgone : change ≠ .removal .constraint c := by
      rintro rfl
      exact hs.retires.notMem (hs.consistent hq) hcr
    obtain ⟨row₂, hrow₂, hterms₂⟩ := hs.hasRow hq hrow₁ (by rintro rfl; cases hc) hgone
    refine ⟨row₂, hrow₂, ?_⟩
    rw [hterms₂, hterms₁, List.filter_filter]
    refine List.filter_congr fun t ht => ?_
    rw [← Bool.decide_and, decide_eq_decide]
    exact ⟨fun hv => hv.1, fun hv => ⟨hv, hs.live_of_quiet hc hv⟩⟩

theorem Steps.remembers (hs : Steps Change.IsQuiet p n q) (hp : p.Consistent)
    (hsolution : p.solution = some s) : Remembers p s q := by
  induction hs with
  | refl =>
    refine ⟨fun _ _ hh => hh, rfl, rfl, ⟨s, hsolution, rfl, hp.aligned_self, fun kind => ?_⟩, ?_⟩
    · cases duals s kind with
      | none => exact .none
      | some xs => exact .some hp.aligned_self
    · exact fun c row hrow _ => ⟨row, hrow, hrow.termsAt_kept hp (List.append_nil _).symm rfl⟩
  | tail hs' hc hstep ih => exact ih.step (hs'.consistent hp) hstep hc

def recordedSum (p : Problem) (s : Solution) (ts : List Term) : Float :=
  ts.foldl (fun sum t => sum + t.coefficient * s.columns.getD (p.vars.idxOf t.var) 0) (-0.0)

/-- What was recorded in `p` is still to be read in `q` for the entities that are left. -/
structure Retains (p : Problem) (s : Solution) (q : Problem) : Prop where
  status : q.status = p.status
  objective : q.objectiveValue = .ok (roundToDigits s.objective p.valueScale)
  value : ∀ v i, p.indexOf v = .ok i → v ∈ q.vars →
    ∃ x, s.columns[i]? = some x ∧ q.value v = .ok (roundToDigits x p.valueScale)
  activity : ∀ c l, p.linear c = .ok l → c ∈ q.constraints → q.value c =
    .ok (roundToDigits (p.recordedSum s ((Linear.termsOf l).filter (·.var ∈ q.vars))) p.valueScale)
  dual : ∀ kind (h : Handle kind) i xs, p.indexOf h = .ok i → h ∈ q.handles kind →
    duals s kind = some xs → ∃ x, xs[i]? = some x ∧ q.dual h = .ok x
  noDual : ∀ kind (h : Handle kind), h ∈ q.handles kind → duals s kind = none →
    q.dual h = Outcome.refuse (.unavailable .duals)

theorem currentSolution_eq (hs : q.solution = some t) (hstatus : q.status.hasSolution = true) :
    q.currentSolution = .ok t := by
  simp only [currentSolution, hs, hstatus, ↓reduceIte, Outcome.pure_eq_ok]

section Retaining

variable (hp : p.Consistent) (hsolution : p.solution = some s)
include hp hsolution

theorem length_columns_of_fits : s.columns.length = p.vars.length := by
  rw [hp.length_vars]
  exact (hp.fits s hsolution).values

theorem length_duals_of_fits (hd : duals s kind = some xs) :
    xs.length = (p.handles kind).length := by
  have hf := hp.fits s hsolution
  cases kind with
  | var => exact (hf.columnDuals xs hd).trans hp.length_vars.symm
  | constraint => exact (hf.rowDuals xs hd).trans hp.length_constraints.symm

omit hsolution in
theorem Aligned.exists_of_live (h : Aligned p q kind xs ys)
    (hlen : xs.length = (p.handles kind).length) {g : Handle kind} {i j : Nat}
    (hi : p.indexOf g = .ok i) (hj : (q.handles kind)[j]? = some g) :
    ∃ x, xs[i]? = some x ∧ valueAt ys j = .ok x := by
  have hat := hp.indexOf_eq_ok_iff.mp hi
  have hlt : i < xs.length := by
    rw [hlen]
    exact (List.getElem?_eq_some_iff.mp hat).1
  have hx := List.getElem?_eq_getElem hlt
  refine ⟨_, hx, ?_⟩
  simp only [valueAt, h i j g hat hj, hx, Outcome.pure_eq_ok]

theorem activity_eq (h : Aligned p q .var s.columns ys)
    (hlive : ∀ v ∈ q.vars, v ∈ p.vars) {entries : List Entry}
    (he : ∀ e ∈ entries, e.column < q.vars.length) :
    activity ys entries = .ok (p.recordedSum s (entries.map q.termAt)) := by
  unfold activity recordedSum
  generalize (-0.0 : Float) = sum
  induction entries generalizing sum with
  | nil => rfl
  | cons e entries ih =>
    rw [List.forall_mem_cons] at he
    have hv := List.getElem?_eq_getElem he.1
    have hm : q.vars[e.column] ∈ p.vars := hlive _ (List.getElem_mem _)
    obtain ⟨x, hx, hvalue⟩ := h.exists_of_live hp (length_columns_of_fits hp hsolution)
      (hp.indexOf_of_mem hm) hv
    have hat : s.columns[p.vars.idxOf q.vars[e.column]]? = some x := hx
    have hterm : s.columns.getD (p.vars.idxOf (q.termAt e).var) 0 = x := by
      rw [var_termAt he.1, List.getD_eq_getElem?_getD, hat, Option.getD_some]
    rw [List.foldlM_cons, hvalue, List.map_cons, List.foldl_cons, hterm]
    exact ih he.2 _

theorem Remembers.retains (h : Remembers p s q) (hq : q.Consistent) : Retains p s q := by
  obtain ⟨t, ht, hf⟩ := h.solution
  have hstatus : q.status.hasSolution = true := by
    rw [← hq.solved, ht]
    rfl
  have hcurrent := currentSolution_eq ht hstatus
  have hindex {kind : EntityKind} {g : Handle kind} (hg : g ∈ q.handles kind) :
      q.indexOf g = .ok ((q.handles kind).idxOf g) ∧
        (q.handles kind)[(q.handles kind).idxOf g]? = some g :=
    ⟨hq.indexOf_of_mem hg, hq.indexOf_eq_ok_iff.mp (hq.indexOf_of_mem hg)⟩
  refine ⟨h.status, ?_, ?_, ?_, ?_, ?_⟩
  · simp only [objectiveValue, hcurrent, Outcome.bind_ok, Outcome.pure_eq_ok, hf.objective, h.scale]
  · intro v i hi hv
    obtain ⟨x, hx, hvalue⟩ := hf.values.exists_of_live hp (length_columns_of_fits hp hsolution) hi
      (hindex hv).2
    refine ⟨x, hx, ?_⟩
    simp only [value, (hindex hv).1, hcurrent, rawValueAt, hvalue, Outcome.bind_ok,
      Outcome.pure_eq_ok, h.scale]
  · intro c l hl hc
    obtain ⟨row, hrow⟩ := hp.hasRow (h.live .constraint c hc)
    obtain ⟨l', hl', hterms, -⟩ := hrow.linear_eq hp
    rw [hl, Except.ok.injEq] at hl'
    subst hl'
    obtain ⟨row', hrow', hterms'⟩ := h.rows c row hrow hc
    have hactivity := activity_eq hp hsolution hf.values (h.live .var)
      (hrow'.proper hq).inRange
    have hsum : row'.entries.map q.termAt = (Linear.termsOf l).filter (·.var ∈ q.vars) := by
      rw [hterms]
      exact hterms'
    rw [hsum] at hactivity
    obtain ⟨j, hj, hr⟩ := hrow'
    simp only [value, hq.indexOf_eq_ok_iff.mpr hj, hcurrent, rawValueAt, row_eq hr,
      Outcome.ofDefect, hactivity, Outcome.bind_ok, Outcome.pure_eq_ok, h.scale]
  · intro kind g i xs hi hg hd
    have hduals := hf.duals kind
    rw [hd] at hduals
    cases hys : duals t kind with
    | none =>
      rw [hys] at hduals
      cases hduals
    | some ys =>
      rw [hys] at hduals
      cases hduals with
      | some ha =>
        obtain ⟨x, hx, hvalue⟩ := ha.exists_of_live hp (length_duals_of_fits hp hsolution hd) hi
          (hindex hg).2
        refine ⟨x, hx, ?_⟩
        simp only [dual, (hindex hg).1, hcurrent, hys, hvalue, Outcome.bind_ok]
  · intro kind g hg hd
    have hduals := hf.duals kind
    rw [hd] at hduals
    cases hys : duals t kind with
    | none => simp only [dual, (hindex hg).1, hcurrent, hys, Outcome.bind_ok]
    | some ys =>
      rw [hys] at hduals
      cases hduals

end Retaining

theorem recordSolution_ok {status : Status} (hs : status.hasSolution = true)
    (hx : recordSolution status (some s) p = .ok () q) :
    q = { p with status := status, solution := some s } := by
  obtain ⟨solution, hsolution, hq⟩ := ok_of_ask hx
  have hq' : EStateM.Result.ok () { p with status := status, solution := solution } = .ok () q := hq
  cases hq'
  simp only [accepted, hs, ↓reduceIte] at hsolution
  obtain ⟨-, -, hsome⟩ := Outcome.bind_eq_ok.mp hsolution
  cases hsome
  rfl

/-- Recorded values follow their handles. -/
theorem retains_of_quiet (hp : p.Reachable) {status : Status} (hs : status.hasSolution = true)
    (hx : recordSolution status (some s) p = .ok () q) (hr : Leads Operation.Quiet q n r) :
    q.status = status ∧ Retains q s r := by
  obtain hrefused | ⟨solution, hsome, hfits, ha⟩ :=
    hp.consistent.recordSolution_cases status (some s)
  · exact absurd hx hrefused.not_ok
  have hq := recordSolution_ok hs hx
  rw [hx] at ha
  cases ha
  have hc := (Step.outcome hsome hfits).consistent hp.consistent
  have hsteps := hr.steps hc hp.inCapacity fun _ _ hr' _ hop hroom hs => hop.steps hr' hroom hs
  have hsolution : solution = some s := congrArg Problem.solution hq
  subst hsolution
  exact ⟨rfl, (hsteps.remembers hc rfl).retains hc rfl (hsteps.consistent hc)⟩

section Example

def paired : Problem :=
  let x : Variable := ⟨⟨0⟩, ⟨0, 0⟩⟩
  let y : Variable := ⟨⟨0⟩, ⟨1, 0⟩⟩
  (Operation.addConstraint "c" (some (.ofTerms [⟨1, x⟩, ⟨2, y⟩])) .free).after <|
    (Operation.addVariable "y" .real).after <|
      (Operation.addVariable "x" .real).after (.new ⟨0⟩)

def pairedSolution : Solution := ⟨5, [3, 4], some [0, 1], none⟩

def solvedPair : Problem := (Operation.recordSolution .optimal (some pairedSolution)).after paired

theorem reachable_paired : paired.Reachable := by
  refine .step _ (.step _ (.step _ (reachable_new ⟨0⟩) ?_) ?_) ?_
  all_goals decide +kernel

theorem record_paired :
    recordSolution .optimal (some pairedSolution) paired = .ok () solvedPair := by
  rw [solvedPair, Operation.after, Operation.perform, Edit.final_bind_pure]
  exact Edit.ok_of_answer? (by decide +kernel)

theorem retains_paired : recordSolution .optimal (some pairedSolution) paired = .ok () solvedPair ∧
    solvedPair.status = .optimal ∧ Retains solvedPair pairedSolution
      ((Operation.setBound .var ⟨⟨0⟩, ⟨0, 0⟩⟩ .free).after
        ((Operation.dispose .var ⟨⟨0⟩, ⟨0, 0⟩⟩).after solvedPair)) := by
  have hfails : (Operation.setBound .var ⟨⟨0⟩, ⟨0, 0⟩⟩ .free).Fails
      ((Operation.dispose .var ⟨⟨0⟩, ⟨0, 0⟩⟩).after solvedPair) :=
    Edit.error_of_answer? (by decide +kernel)
  exact ⟨record_paired, retains_of_quiet reachable_paired rfl record_paired
    (.step _ (.step _ .refl ⟨.inl rfl, nofun⟩ (by decide +kernel)) ⟨.inr (.inr hfails), nofun⟩
      (by decide +kernel))⟩

theorem incidental_not_retained : ¬ ∀ {p q r : Problem} {s : Solution} {status : Status} {n : Nat},
    p.Reachable → status.hasSolution = true → recordSolution status (some s) p = .ok () q →
      Leads Operation.Incidental q n r → q.status = status ∧ Retains q s r := by
  intro h
  let bounds : BoundSnapshot .var := ⟨.ofList [(⟨⟨0⟩, ⟨0, 0⟩⟩, .free), (⟨⟨0⟩, ⟨1, 0⟩⟩, .free)]⟩
  have hfails : (Operation.restoreBounds .var bounds).Fails
      ((Operation.dispose .var ⟨⟨0⟩, ⟨1, 0⟩⟩).after solvedPair) :=
    Edit.error_of_answer? (by decide +kernel)
  have hr := (h reachable_paired rfl record_paired
    (.step _ (.step _ .refl (.inl rfl) (by decide +kernel)) (.inr (.inr hfails))
      (by decide +kernel))).2.status
  exact absurd hr (by decide +kernel)

end Example

end Problem

end LinearProgram
