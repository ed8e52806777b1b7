import LinearProgram.Proofs.Number.Order
import LinearProgram.Proofs.Problem.Recorded
import LinearProgram.Proofs.Problem.Safety

/-!
Whether captured values satisfy a constraint, against the value that the constraint itself reports.
Captured values are rounded one by one and then summed; the constraint sums what was recorded, and
rounds the sum.
-/

namespace LinearProgram

namespace Bound

open Double (Near)

variable {b : Bound} {x y tolerance : Float}

theorem contains_iff : b.contains x tolerance = true ↔
    (∀ l, b.lower = some l → l - tolerance ≤ x) ∧ ∀ u, b.upper = some u → x ≤ u + tolerance := by
  simp only [contains, Bool.and_eq_true, Option.all_eq_true, decide_eq_true_eq]

theorem contains_zero_iff : b.contains x 0 = true ↔
    (∀ l, b.lower = some l → l ≤ x) ∧ ∀ u, b.upper = some u → x ≤ u := by
  simp only [contains_iff, Double.sub_zero, Double.le_add_zero_iff]

theorem contains_of_near (ht : tolerance.isFinite = true) (hx : b.contains x 0 = true)
    (hxy : x.isNaN = true ∨ Near x y tolerance) : b.contains y tolerance = true := by
  rw [contains_zero_iff] at hx
  rw [contains_iff]
  obtain hn | ⟨hlow, hhigh⟩ := hxy
  -- only a bound without sides contains NaN
  · refine ⟨fun l hl => ?_, fun u hu => ?_⟩
    · have hnumber := (Double.le_iff.mp (hx.1 l hl)).2.1
      rw [hn] at hnumber
      cases hnumber
    · have hnumber := (Double.le_iff.mp (hx.2 u hu)).1
      rw [hn] at hnumber
      cases hnumber
  · exact ⟨fun l hl => Double.le_trans (Double.sub_le_sub_right (hx.1 l hl) ht) hlow,
      fun u hu => Double.le_trans hhigh (Double.add_le_add_right (hx.2 u hu) ht)⟩

theorem contains_fixed_iff : (fixed x).contains y tolerance = true ↔ Near x y tolerance := by
  simp [contains_iff, fixed, Near]

end Bound

namespace Problem

def reported (p : Problem) (s : Solution) (v : Variable) : Float :=
  roundToDigits (s.columns.getD (p.vars.idxOf v) 0) p.valueScale

def reportedSum (p : Problem) (s : Solution) (ts : List Term) : Float :=
  ts.foldl (fun sum t => sum + t.coefficient * p.reported s t.var) 0

def reportedActivity (p : Problem) (s : Solution) (ts : List Term) : Float :=
  roundToDigits (p.recordedSum s ts) p.valueScale

structure Unrounded (p : Problem) (s : Solution) (ts : List Term) : Prop where
  values : ∀ t ∈ ts, p.reported s t.var = s.columns.getD (p.vars.idxOf t.var) 0
  sum : p.reportedActivity s ts = p.recordedSum s ts

variable {p : Problem} {s : Solution} {c : Constraint} {v : Variable} {ts : List Term}

namespace Consistent

variable (hp : p.Consistent) (hs : p.solution = some s)
include hp hs

theorem retains_self : Retains p s p := (Steps.refl.remembers hp hs).retains hp hs hp

theorem value_eq (hv : v ∈ p.vars) : p.value v = .ok (p.reported s v) := by
  obtain ⟨x, hx, hvalue⟩ := (hp.retains_self hs).value v _ (hp.indexOf_of_mem hv) hv
  have hat : s.columns[p.vars.idxOf v]? = some x := hx
  rw [hvalue, reported, List.getD_eq_getElem?_getD, hat, Option.getD_some]

theorem activity_value_eq (hc : c ∈ p.constraints) : ∃ l, p.linear c = .ok l ∧
    (∀ t ∈ Linear.termsOf l, t.var ∈ p.vars) ∧
    p.value c = .ok (p.reportedActivity s (Linear.termsOf l)) := by
  obtain ⟨l, hl, hlive⟩ := hp.linear_of_mem hc
  have hvalue := (hp.retains_self hs).activity c l hl hc
  rw [List.filter_eq_self.mpr fun t ht => decide_eq_true (hlive t ht)] at hvalue
  exact ⟨l, hl, hlive, hvalue⟩

end Consistent

theorem Unrounded.matches (h : p.Unrounded s ts) :
    Double.Matches (p.reportedActivity s ts) (p.reportedSum s ts) := by
  -- the sums start from zeros of different signs
  have hfold {x y : Float} (hxy : Double.Matches x y) : Double.Matches
      (ts.foldl (fun sum t => sum + t.coefficient * s.columns.getD (p.vars.idxOf t.var) 0) x)
      (ts.foldl (fun sum t => sum + t.coefficient * p.reported s t.var) y) := by
    have hvalues := h.values
    clear h
    induction ts generalizing x y with
    | nil => exact hxy
    | cons t ts ih =>
      rw [List.forall_mem_cons] at hvalues
      rw [List.foldl_cons, List.foldl_cons, hvalues.1]
      exact ih (hxy.add _) hvalues.2
  rw [h.sum]
  exact hfold (.inr ⟨by decide +kernel, by decide +kernel⟩)

end Problem

namespace ValueSnapshot

open Double (Near)

variable {p : Problem} {s : ValueSnapshot} {c : Constraint} {x : Variable → Float}

section Judging

theorem product_eq {t : Term} {x : Float} (h : s.value? t.var = some x) :
    s.product t = .ok (t.coefficient * x) := by
  simp only [product, h, Outcome.pure_eq_ok]

theorem evaluate_eq {l : Linear} (h : ∀ t ∈ l.terms, s.value? t.var = some (x t.var)) :
    s.evaluate l = .ok (l.terms.foldl (fun sum t => sum + t.coefficient * x t.var) 0) := by
  unfold evaluate
  generalize (0 : Float) = sum
  generalize l.terms = ts at h ⊢
  induction ts generalizing sum with
  | nil => rfl
  | cons t ts ih =>
    rw [List.forall_mem_cons] at h
    rw [List.foldlM_cons, product_eq h.1]
    exact ih _ h.2

theorem isSatisfied_eq {l : Option Linear} {b : Bound} (hl : p.linear c = .ok l)
    (hb : p.bound c = .ok b) (h : ∀ t ∈ Linear.termsOf l, s.value? t.var = some (x t.var)) :
    s.isSatisfied p c = .ok (b.contains
      ((Linear.termsOf l).foldl (fun sum t => sum + t.coefficient * x t.var) 0) s.tolerance) := by
  cases l with
  | none =>
    simp only [isSatisfied, hl, hb, Outcome.bind_ok, Outcome.pure_eq_ok]
    rfl
  | some l =>
    simp only [isSatisfied, hl, hb, evaluate_eq h, Outcome.bind_ok, Outcome.pure_eq_ok]
    rfl

end Judging

section Capturing

variable {t : Solution} (hp : p.Consistent) (ht : p.solution = some t)
include hp ht

theorem captureAll_eq :
    captureAll p = .ok ⟨.ofList (p.vars.map fun v => (v, p.reported t v)), defaultTolerance⟩ := by
  have hstatus : p.status.hasSolution = true := by
    rw [← hp.solved, ht]
    rfl
  have hvalues : p.vars.mapM (captured p) = .ok (p.vars.map fun v => (v, p.reported t v)) :=
    Outcome.mapM_eq_ok fun v hv => by
      simp only [captured, hp.value_eq ht hv, Outcome.bind_ok, Outcome.pure_eq_ok]
  simp only [captureAll, capture, hstatus, ↓reduceIte, hvalues, Outcome.bind_ok, Outcome.pure_eq_ok]

end Capturing

theorem isFinite_defaultTolerance : defaultTolerance.isFinite = true := by decide +kernel

theorem ticks_defaultTolerance : 0 ≤ Double.ticks (Double.value defaultTolerance) := by
  decide +kernel

/-- How captured values judge a constraint with the terms `ts` and the bound `b`. -/
structure Judges (s : ValueSnapshot) (p : Problem) (t : Solution) (c : Constraint) (ts : List Term)
    (b : Bound) : Prop where
  value : p.value c = .ok (p.reportedActivity t ts)
  answer : s.isSatisfied p c = .ok (b.contains (p.reportedSum t ts) defaultTolerance)
  near : b.contains (p.reportedActivity t ts) 0 = true →
    (p.reportedActivity t ts).isNaN = true ∨
      Near (p.reportedActivity t ts) (p.reportedSum t ts) defaultTolerance →
    s.isSatisfied p c = .ok true
  unrounded : b.contains (p.reportedActivity t ts) 0 = true → p.Unrounded t ts →
    s.isSatisfied p c = .ok true
  sharp : b = .fixed (p.reportedActivity t ts) → (s.isSatisfied p c = .ok true ↔
    Near (p.reportedActivity t ts) (p.reportedSum t ts) defaultTolerance)

theorem judges_of_answer {t : Solution} {ts : List Term} {b : Bound}
    (hvalue : p.value c = .ok (p.reportedActivity t ts))
    (hanswer : s.isSatisfied p c = .ok (b.contains (p.reportedSum t ts) defaultTolerance)) :
    s.Judges p t c ts b := by
  have hnear (hb : b.contains (p.reportedActivity t ts) 0 = true)
      (h : (p.reportedActivity t ts).isNaN = true ∨
        Near (p.reportedActivity t ts) (p.reportedSum t ts) defaultTolerance) :
      s.isSatisfied p c = .ok true := by
    rw [hanswer, Bound.contains_of_near isFinite_defaultTolerance hb h]
  refine ⟨hvalue, hanswer, hnear, fun hb hu => hnear hb ?_, ?_⟩
  · cases hn : (p.reportedActivity t ts).isNaN with
    | true => exact .inl rfl
    | false => exact .inr (hu.matches.near hn isFinite_defaultTolerance ticks_defaultTolerance)
  · rintro rfl
    rw [hanswer, Except.ok.injEq]
    exact Bound.contains_fixed_iff

/-- A constraint whose value is within its bound is satisfied by the captured values, provided that
rounding moves its row by no more than the tolerance. -/
theorem judges_of_reachable (hp : p.Reachable) {t : Solution} (ht : p.solution = some t)
    (hc : c ∈ p.constraints) : ∃ s l b, captureAll p = .ok s ∧ p.linear c = .ok l ∧
      p.bound c = .ok b ∧ s.Judges p t c (Linear.termsOf l) b := by
  obtain ⟨l, hl, hlive, hvalue⟩ := hp.consistent.activity_value_eq ht hc
  obtain ⟨b, hb⟩ := hp.consistent.boundAt_answers (hp.consistent.indexOf_of_mem hc)
  refine ⟨_, l, b, captureAll_eq hp.consistent ht, hl, hb, judges_of_answer hvalue ?_⟩
  refine isSatisfied_eq hl hb fun u hu => ?_
  rw [value?, Registry.find?_ofList, if_pos (hlive u hu)]

section Example

open Problem

def unevenSolution : Solution := ⟨0, [0.3333333333333333, 0.1], none, none⟩

def uneven : Problem :=
  let x : Variable := ⟨⟨0⟩, ⟨0, 0⟩⟩
  let y : Variable := ⟨⟨0⟩, ⟨1, 0⟩⟩
  (Operation.recordSolution .optimal (some unevenSolution)).after <|
    (Operation.addConstraint "d" (some (.ofTerms [⟨3, y⟩])) ⟨some 0.3, none⟩).after <|
      (Operation.addConstraint "c" (some (.ofTerms [⟨3000, x⟩])) ⟨some 1000, none⟩).after <|
        (Operation.addVariable "y" .real).after <|
          (Operation.addVariable "x" .real).after (.new ⟨0⟩)

def thirds : Constraint := ⟨⟨0⟩, ⟨0, 0⟩⟩

def tenths : Constraint := ⟨⟨0⟩, ⟨1, 0⟩⟩

theorem reachable_uneven : uneven.Reachable := by
  refine .step _ (.step _ (.step _ (.step _ (.step _ (reachable_new ⟨0⟩) ?_) ?_) ?_) ?_) ?_
  all_goals decide +kernel

theorem judges_uneven : uneven.solution = some unevenSolution ∧ tenths ∈ uneven.constraints ∧
    ∃ s, captureAll uneven = .ok s ∧ s.isSatisfied uneven tenths = .ok true := by
  have ht : uneven.solution = some unevenSolution := rfl
  have hc : tenths ∈ uneven.constraints := by decide +kernel
  obtain ⟨s, l, b, hs, hl, hb, h⟩ := judges_of_reachable reachable_uneven ht hc
  obtain ⟨l', hl', hsums⟩ := @Outcome.exists_ok_of_any _ _ (uneven.linear tenths)
    (fun l => decide (uneven.reportedActivity unevenSolution (Linear.termsOf l) = 0.3 ∧
      Near 0.3 (uneven.reportedSum unevenSolution (Linear.termsOf l)) defaultTolerance))
    (by decide +kernel)
  obtain ⟨b', hb', hwithin⟩ := @Outcome.exists_ok_of_any _ _ (uneven.bound tenths)
    (fun b => b.contains 0.3 0) (by decide +kernel)
  obtain rfl := Except.ok.inj (hl'.symm.trans hl)
  obtain rfl := Except.ok.inj (hb'.symm.trans hb)
  obtain ⟨hactivity, hnear⟩ := of_decide_eq_true hsums
  rw [← hactivity] at hwithin hnear
  exact ⟨ht, hc, s, hs, h.near hwithin (.inr hnear)⟩

theorem within_not_satisfied : ¬ ∀ {p : Problem} {t : Solution} {c : Constraint} {l : Linear}
    {s : ValueSnapshot} {x : Float} {b : Bound}, p.Reachable → p.solution = some t →
      t.objective.isFinite = true → (∀ y ∈ t.columns, y.isFinite = true) → c ∈ p.constraints →
      p.linear c = .ok (some l) → l.terms ≠ [] → captureAll p = .ok s → p.value c = .ok x →
      p.bound c = .ok b → b.contains x 0 = true → s.isSatisfied p c = .ok true := by
  intro h
  obtain ⟨l, hl, hterms⟩ := @Outcome.exists_ok_of_any _ _ (uneven.linear thirds)
    (fun l => !(Linear.termsOf l).isEmpty) (by decide +kernel)
  obtain ⟨b, hb, hwithin⟩ := @Outcome.exists_ok_of_any _ _ (uneven.bound thirds)
    (fun b => b.contains 1000 0) (by decide +kernel)
  obtain ⟨s, hs, hrefused⟩ := @Outcome.exists_ok_of_any _ _ (captureAll uneven)
    (fun s => (s.isSatisfied uneven thirds).toOption = some false) (by decide +kernel)
  have hx : uneven.value thirds = .ok 1000 := by decide +kernel
  cases l with
  | none => cases hterms
  | some l =>
    have hne : l.terms ≠ [] := by simpa [Linear.termsOf] using hterms
    have htrue := h reachable_uneven rfl (by decide +kernel) (by decide +kernel) (by decide +kernel)
      hl hne hs hx hb hwithin
    rw [htrue] at hrefused
    cases hrefused

end Example

end ValueSnapshot

end LinearProgram
