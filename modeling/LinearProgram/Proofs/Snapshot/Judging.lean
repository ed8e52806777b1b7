import LinearProgram.Proofs.Process.Additions
import LinearProgram.Proofs.Snapshot.Feasibility

namespace LinearProgram.ValueSnapshot

open Problem Process

variable {w w' : Process} {new : List Process.Event} {i : Nat} {p lp : Problem} {t : Solution}
  {s : ValueSnapshot} {c : Constraint}

theorem evaluate_refused {l : Linear} (h : ∃ t ∈ l.terms, s.value? t.var = none) :
    s.evaluate l = Outcome.refuseFault .notCaptured := by
  unfold evaluate
  generalize (0 : Float) = sum
  generalize l.terms = ts at h ⊢
  induction ts generalizing sum with
  | nil =>
    obtain ⟨t, ht, -⟩ := h
    cases ht
  | cons t ts ih =>
    rw [List.foldlM_cons]
    cases hx : s.value? t.var with
    | none =>
      simp only [product, hx]
      rfl
    | some x =>
      rw [product_eq hx]
      refine ih _ ?_
      obtain ⟨u, hu, hnone⟩ := h
      rcases List.mem_cons.mp hu with rfl | hu
      · rw [hx] at hnone
        cases hnone
      · exact ⟨u, hu, hnone⟩

theorem isSatisfied_refused {l : Option Linear} (hl : lp.linear c = .ok l)
    (h : ∃ t ∈ Linear.termsOf l, s.value? t.var = none) :
    s.isSatisfied lp c = Outcome.refuseFault .notCaptured := by
  cases l with
  | none =>
    obtain ⟨t, ht, -⟩ := h
    cases ht
  | some l =>
    simp only [isSatisfied, hl, evaluate_refused h, Outcome.bind_ok]
    rfl

theorem exists_captureAll (hp : p.Consistent) (ht : p.solution = some t) :
    ∃ s, captureAll p = .ok s ∧ s.tolerance = defaultTolerance ∧
      ∀ v, s.value? v = if v ∈ p.vars then some (p.reported t v) else none :=
  ⟨_, captureAll_eq hp ht, rfl, Registry.find?_ofList _ _⟩

/-- Values captured from one state judge a constraint of a later one, unless its row has a variable
that was added in between. Neither disposals nor new rows, bounds and solutions make a difference to
what is known. -/
theorem judges_later (hw : w.problems[i]? = some p) (hp : p.Reachable) (ht : p.solution = some t) :
    ∃ (s : ValueSnapshot) (x : Variable → Float), captureAll p = .ok s ∧
      s.tolerance = defaultTolerance ∧ (∀ v ∈ p.vars, p.value v = .ok (x v)) ∧
      ∀ {w' new lp c}, Later w w' new → w'.problems[i]? = some lp → disposals new i < 2 ^ 32 →
        c ∈ lp.constraints → ∃ l b, lp.linear c = .ok l ∧ lp.bound c = .ok b ∧
          let ts := Linear.termsOf l
          let unknown := ∃ t ∈ ts, Process.Event.added i t.var ∈ new
          ((∃ e, s.isSatisfied lp c = .error e) ↔ unknown) ∧
          (unknown → s.isSatisfied lp c = Outcome.refuseFault .notCaptured) ∧
          (¬ unknown → (∀ t ∈ ts, t.var ∈ p.vars) ∧
            let sum := ts.foldl (fun sum t => sum + t.coefficient * x t.var) 0
            s.isSatisfied lp c = .ok (b.contains sum s.tolerance) ∧
            (s.isSatisfied lp c = .ok true ↔
              (∀ lower, b.lower = some lower → lower - s.tolerance ≤ sum) ∧
                ∀ upper, b.upper = some upper → sum ≤ upper + s.tolerance)) := by
  obtain ⟨s, hs, htolerance, hvalue⟩ := exists_captureAll hp.consistent ht
  refine ⟨s, p.reported t, hs, htolerance, fun v => hp.consistent.value_eq ht,
    fun {w' new lp c} hlater hlp hn hc => ?_⟩
  obtain ⟨q, hq, hf, ha⟩ := hlater.augments hw hp
  cases hlp.symm.trans hq
  have hlpc := hf.reachable.consistent
  obtain ⟨l, hl, hlive⟩ := hlpc.linear_of_mem hc
  obtain ⟨b, hb⟩ := hlpc.boundAt_answers (hlpc.indexOf_of_mem hc)
  refine ⟨l, b, hl, hb, ?_⟩
  intro ts unknown
  have hrefused (hu : unknown) : s.isSatisfied lp c = Outcome.refuseFault .notCaptured := by
    obtain ⟨u, hm, hadded⟩ := hu
    refine isSatisfied_refused hl ⟨u, hm, ?_⟩
    rw [hvalue, if_neg (ha.fresh hn _ hadded)]
  have hknown (hu : ¬ unknown) : ∀ t ∈ ts, t.var ∈ p.vars := by
    intro u hm
    by_contra hv
    exact hu ⟨u, hm, (ha.added_iff hn (hlive u hm)).mpr hv⟩
  have hanswered (hu : ¬ unknown) : s.isSatisfied lp c = .ok (b.contains
      (ts.foldl (fun sum u => sum + u.coefficient * p.reported t u.var) 0) s.tolerance) := by
    refine isSatisfied_eq hl hb fun u hm => ?_
    rw [hvalue, if_pos (hknown hu u hm)]
  refine ⟨⟨fun ⟨e, he⟩ => ?_, fun hu => ⟨_, hrefused hu⟩⟩, hrefused,
    fun hu => ⟨hknown hu, hanswered hu, ?_⟩⟩
  · by_contra hu
    cases he.symm.trans (hanswered hu)
  · rw [hanswered hu, Except.ok.injEq]
    exact Bound.contains_iff

theorem judges_reused :
    let x : Variable := ⟨⟨0⟩, ⟨0, 0⟩⟩
    let y : Variable := ⟨⟨0⟩, ⟨1, 0⟩⟩
    let z : Variable := ⟨⟨0⟩, ⟨0, 1⟩⟩
    let c : Constraint := ⟨⟨0⟩, ⟨0, 0⟩⟩
    let d : Constraint := ⟨⟨0⟩, ⟨1, 0⟩⟩
    let e : Constraint := ⟨⟨0⟩, ⟨2, 0⟩⟩
    let w := ((((Process.start.after (.create .empty)).after
      (.operate 0 (.addVariable "x" .real))).after
      (.operate 0 (.addVariable "y" .real))).after
      (.operate 0 (.addConstraint "c" (some (.ofTerms [⟨1, x⟩, ⟨3, y⟩])) .free))).after
      (.operate 0 (.recordSolution .optimal (some ⟨0, [1, 2], none, none⟩)))
    ∃ p t s w' new lp, w.problems[0]? = some p ∧ p.Reachable ∧ p.solution = some t ∧
      captureAll p = .ok s ∧ Later w w' new ∧ w'.problems[0]? = some lp ∧ disposals new 0 = 1 ∧
      lp.vars = [y, z] ∧ lp.value y = .ok 5 ∧ lp.constraints = [c, d, e] ∧
      s.isSatisfied lp c = .ok true ∧ s.isSatisfied lp d = Outcome.refuseFault .notCaptured ∧
      s.isSatisfied lp e = .ok false := by
  intro x y z c d e w
  let p := (Operation.recordSolution .optimal (some ⟨0, [1, 2], none, none⟩)).after
    ((Operation.addConstraint "c" (some (.ofTerms [⟨1, x⟩, ⟨3, y⟩])) .free).after
      ((Operation.addVariable "y" .real).after
        ((Operation.addVariable "x" .real).after (.new ⟨0⟩))))
  let lp := (Operation.recordSolution .optimal (some ⟨0, [5, 7], none, none⟩)).after
    ((Operation.addConstraint "e" (some (.ofTerms [⟨3, y⟩])) (.fixed 15)).after
      ((Operation.addConstraint "d" (some (.ofTerms [⟨1, z⟩])) .free).after
        ((Operation.setBound .constraint c (.fixed 6)).after
          ((Operation.addVariable "z" .real).after
            ((Operation.dispose .var x).after p)))))
  have hp : p.Reachable := by
    refine .step _ (.step _ (.step _ (.step _ (reachable_new ⟨0⟩) ?_) ?_) ?_) ?_
    all_goals decide +kernel
  have hlater : Later w _ _ :=
    .step (.step (.step (.step (.step (.step .refl
      (.operate 0 (.dispose .var x)) (by decide +kernel))
      (.operate 0 (.addVariable "z" .real)) (by decide +kernel))
      (.operate 0 (.setBound .constraint c (.fixed 6))) (by decide +kernel))
      (.operate 0 (.addConstraint "d" (some (.ofTerms [⟨1, z⟩])) .free)) (by decide +kernel))
      (.operate 0 (.addConstraint "e" (some (.ofTerms [⟨3, y⟩])) (.fixed 15))) (by decide +kernel))
      (.operate 0 (.recordSolution .optimal (some ⟨0, [5, 7], none, none⟩))) (by decide +kernel)
  have hw : w.problems[0]? = some p := rfl
  obtain ⟨t, ht⟩ : ∃ t, p.solution = some t := Option.isSome_iff_exists.mp (by decide +kernel)
  obtain ⟨s, value, hs, htolerance, hvalue, hall⟩ := judges_later hw hp ht
  have hconstraints : lp.constraints = [c, d, e] := by decide +kernel
  have hjudged (r : Constraint) (hr : r ∈ lp.constraints) :=
    hall hlater (show _ = some lp from rfl) (by decide +kernel) hr
  have hy : value y = 2 := by
    have hread : p.value y = .ok 2 := by decide +kernel
    exact Except.ok.inj ((hvalue y (by decide +kernel)).symm.trans hread)
  -- a row that is three times `y` now is judged by the two that `y` was then
  have htriple {r : Constraint} {answer : Bool} (hr : r ∈ lp.constraints)
      (hrow : (lp.linear r).toOption.any
        (fun l => decide ((Linear.termsOf l).map (fun t => (t.coefficient, t.var)) = [(3, y)])) =
          true)
      (hbound : (lp.bound r).toOption.any
        (fun b => b.contains (0 + 3 * 2) defaultTolerance == answer) = true) :
      s.isSatisfied lp r = .ok answer := by
    obtain ⟨l, b, hl, hb, -, -, hknown⟩ := hjudged r hr
    obtain ⟨l', hl', hterms⟩ := Outcome.exists_ok_of_any hrow
    obtain ⟨b', hb', hwithin⟩ := Outcome.exists_ok_of_any hbound
    obtain rfl := Except.ok.inj (hl'.symm.trans hl)
    obtain rfl := Except.ok.inj (hb'.symm.trans hb)
    obtain ⟨⟨a, v⟩, hts, hav⟩ := List.map_eq_singleton_iff.mp (of_decide_eq_true hterms)
    obtain ⟨rfl, rfl⟩ := Prod.mk.inj hav
    rw [hts] at hknown
    obtain ⟨-, hanswer, -⟩ := hknown fun ⟨u, hu, hadded⟩ => by
      rw [List.mem_singleton.mp hu] at hadded
      revert hadded
      decide +kernel
    rw [hanswer, htolerance, List.foldl_cons, List.foldl_nil, hy, beq_iff_eq.mp hwithin]
  refine ⟨p, t, s, _, _, lp, hw, hp, ht, hs, hlater, rfl, by decide +kernel,
    by decide +kernel, by decide +kernel, hconstraints, ?_, ?_, ?_⟩
  · exact htriple (by simp [hconstraints]) (by decide +kernel) (by decide +kernel)
  · obtain ⟨l, b, hl, -, -, hunknown, -⟩ := hjudged d (by simp [hconstraints])
    obtain ⟨l', hl', hterms⟩ := @Outcome.exists_ok_of_any _ _ (lp.linear d)
      (fun l => (Linear.termsOf l).any (·.var == z)) (by decide +kernel)
    obtain rfl := Except.ok.inj (hl'.symm.trans hl)
    obtain ⟨u, hu, hz⟩ := List.any_eq_true.mp hterms
    refine hunknown ⟨u, hu, ?_⟩
    rw [beq_iff_eq.mp hz]
    decide +kernel
  · exact htriple (by simp [hconstraints]) (by decide +kernel) (by decide +kernel)

end LinearProgram.ValueSnapshot
