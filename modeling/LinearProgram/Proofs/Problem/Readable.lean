import LinearProgram.Document.Files
import LinearProgram.Proofs.Document.Description
import LinearProgram.Proofs.Problem.Recorded
import LinearProgram.Snapshot.Values
import LinearProgram.Problem.Display

namespace LinearProgram

namespace Outcome

variable {α β : Type} {x : Outcome α} {f : α → Outcome β}

def Answers (x : Outcome α) : Prop := ∃ a, x = .ok a

namespace Answers

theorem ok (a : α) : Answers (.ok a) := ⟨a, rfl⟩

theorem unbroken (h : Answers x) : Unbroken x := by
  obtain ⟨a, rfl⟩ := h
  exact unbroken_ok a

theorem bind (hx : Answers x) (hf : ∀ a, x = .ok a → Answers (f a)) : Answers (x >>= f) := by
  obtain ⟨a, rfl⟩ := hx
  exact hf a rfl

theorem mapM {l : List α} (hf : ∀ a ∈ l, Answers (f a)) : Answers (l.mapM f) := by
  induction l with
  | nil => exact ok _
  | cons a l ih =>
    rw [List.forall_mem_cons] at hf
    rw [List.mapM_cons]
    exact bind hf.1 fun b _ => bind (ih hf.2) fun bs _ => ok _

end Answers

end Outcome

open Outcome (Unbroken Answers)

namespace Problem

variable {α β : Type} {kind : EntityKind} {p : Problem}

section Reads

theorem currentSolution_unbroken (p : Problem) : Unbroken p.currentSolution := by
  unfold currentSolution
  split
  · split
    · exact Outcome.unbroken_ok _
    · exact Outcome.unbroken_refused _
  · exact Outcome.unbroken_refused _

theorem solution_of_current {s : Solution} (h : p.currentSolution = .ok s) :
    p.solution = some s := by
  unfold currentSolution at h
  split at h
  · rename_i t ht
    split at h
    · cases h
      exact ht
    · cases h
  · cases h

theorem objectiveValue_unbroken (p : Problem) : Unbroken p.objectiveValue :=
  (currentSolution_unbroken p).bind fun _ _ => Outcome.unbroken_ok _

theorem valueAt_eq {xs : List Float} {i : Nat} (hi : i < xs.length) :
    valueAt xs i = .ok xs[i] := by
  simp only [valueAt, List.getElem?_eq_getElem hi, Outcome.pure_eq_ok]

theorem activity_answers {xs : List Float} {entries : List Entry}
    (h : ∀ e ∈ entries, e.column < xs.length) : Answers (activity xs entries) := by
  unfold activity
  generalize (-0.0 : Float) = sum
  induction entries generalizing sum with
  | nil => exact .ok sum
  | cons e entries ih =>
    rw [List.forall_mem_cons] at h
    rw [List.foldlM_cons, valueAt_eq h.1]
    exact ih h.2 _

theorem evaluate_unbroken (s : ValueSnapshot) (l : Linear) : Unbroken (s.evaluate l) := by
  unfold ValueSnapshot.evaluate
  generalize (0 : Float) = sum
  induction l.terms generalizing sum with
  | nil => exact Outcome.unbroken_ok _
  | cons t ts ih =>
    have hproduct : Unbroken (s.product t) := by
      unfold ValueSnapshot.product
      split
      · exact Outcome.unbroken_ok _
      · exact Outcome.unbroken_refused _
    rw [List.foldlM_cons]
    exact (hproduct.bind fun _ _ => Outcome.unbroken_ok _).bind fun x _ => ih x

namespace Consistent

variable (hp : p.Consistent)
include hp

section Indexed

variable {h : Handle kind} {i : Nat} (hi : p.indexOf h = .ok i)
include hi

theorem nameAt_answers : Answers (p.nameOf h) :=
  ⟨_, hp.nameOf_eq hi (List.getElem?_eq_getElem (hp.index_lt hi))⟩

theorem boundAt_answers : Answers (p.bound h) := by
  have hlt : i < (p.tableau.bounds kind).length := by
    rw [Tableau.length_bounds]
    exact hp.index_lt hi
  exact ⟨_, bound_eq hi (List.getElem?_eq_getElem hlt)⟩

theorem index_lt_size : i < (p.table kind).size := by
  have hlt := hp.index_lt hi
  rwa [hp.length_names, length_handles] at hlt

theorem rawValueAt_answers {s : Solution} (hs : p.solution = some s) :
    Answers (p.rawValueAt s kind i) := by
  have hlt := hp.index_lt_size hi
  have hvalues := (hp.fits s hs).values
  cases kind with
  | var =>
    have hcolumn : i < s.columns.length := hvalues.symm ▸ hp.size_columns ▸ hlt
    exact ⟨_, valueAt_eq hcolumn⟩
  | constraint =>
    have hr := List.getElem?_eq_getElem (hp.size_rows ▸ hlt : i < p.tableau.rows.length)
    have hproper := hp.sound.entries _ (List.mem_of_getElem? hr)
    simp only [rawValueAt, row_eq hr, Outcome.ofDefect, Outcome.bind_ok]
    exact activity_answers fun e he => hvalues.symm ▸ hproper.inRange e he

theorem valueAt_answers {s : Solution} (hs : p.solution = some s) {xs : List Float}
    (hxs : duals s kind = some xs) : Answers (valueAt xs i) := by
  have hlt := hp.index_lt_size hi
  have hf := hp.fits s hs
  cases kind with
  | var =>
    have hdual : i < xs.length := (hf.columnDuals xs hxs).symm ▸ hp.size_columns ▸ hlt
    exact ⟨_, valueAt_eq hdual⟩
  | constraint =>
    have hdual : i < xs.length := (hf.rowDuals xs hxs).symm ▸ hp.size_rows ▸ hlt
    exact ⟨_, valueAt_eq hdual⟩

end Indexed

omit hp in
theorem unbroken_of_index {h : Handle kind} {f : Nat → Outcome α}
    (hf : ∀ i, p.indexOf h = .ok i → Answers (p.indexOf h >>= f)) :
    Unbroken (p.indexOf h >>= f) := by
  obtain ⟨i, hi⟩ | ⟨e, he⟩ := (p.indexOf_unbroken h).cases
  · exact (hf i hi).unbroken
  · rw [he]
    exact Outcome.unbroken_refused e

theorem nameOf_unbroken (h : Handle kind) : Unbroken (p.nameOf h) :=
  unbroken_of_index fun _ hi => hp.nameAt_answers hi

theorem variableType_unbroken (v : Variable) : Unbroken (p.variableType v) := by
  refine unbroken_of_index fun i hi => ?_
  have hlt : i < p.tableau.columns.length := hp.size_columns ▸ hp.index_lt_size hi
  exact ⟨_, variableType_eq hi (List.getElem?_eq_getElem hlt)⟩

theorem row_of_index {c : Constraint} {i : Nat} (hi : p.indexOf c = .ok i) :
    ∃ r, p.tableau.rows[i]? = some r := by
  have hlt : i < p.tableau.rows.length := hp.size_rows ▸ hp.index_lt_size hi
  exact ⟨_, List.getElem?_eq_getElem hlt⟩

theorem entriesOf_unbroken (c : Constraint) : Unbroken (p.entriesOf c) := by
  refine unbroken_of_index fun i hi => ?_
  obtain ⟨r, hr⟩ := hp.row_of_index hi
  exact ⟨_, entriesOf_eq hi hr⟩

theorem linear_unbroken (c : Constraint) : Unbroken (p.linear c) := by
  obtain ⟨i, hi⟩ | ⟨e, he⟩ := (p.indexOf_unbroken c).cases
  · obtain ⟨r, hr⟩ := hp.row_of_index hi
    obtain ⟨l, hl, -⟩ := hp.termsOf_linear hi hr
    rw [hl]
    exact Outcome.unbroken_ok l
  · simp only [linear, entriesOf, he, Outcome.bind_error]
    exact Outcome.unbroken_refused e

theorem isMip_answers : Answers p.isMip := by
  unfold isMip
  have hrange : ∀ i ∈ List.range p.columns.size, i < p.tableau.columns.length := by
    intro i hi
    rw [← hp.size_columns]
    exact List.mem_range.mp hi
  generalize List.range p.columns.size = is at hrange
  induction is with
  | nil => exact .ok true
  | cons i is ih =>
    rw [List.forall_mem_cons] at hrange
    have hkind : p.kindAt i = .ok p.tableau.columns[i].kind := by
      rw [kindAt, column_eq (List.getElem?_eq_getElem hrange.1)]
      rfl
    rw [List.allM, hkind]
    refine (Answers.ok _).bind fun b _ => ?_
    cases b with
    | true => exact ih hrange.2
    | false => exact .ok false

theorem value_unbroken (h : Handle kind) : Unbroken (p.value h) := by
  refine (p.indexOf_unbroken h).bind fun i hi => (currentSolution_unbroken p).bind fun s hs => ?_
  have hx := hp.rawValueAt_answers hi (solution_of_current hs)
  exact hx.unbroken.bind fun _ _ => Outcome.unbroken_ok _

theorem dual_unbroken (h : Handle kind) : Unbroken (p.dual h) := by
  refine (p.indexOf_unbroken h).bind fun i hi => (currentSolution_unbroken p).bind fun s hs => ?_
  split
  · rename_i xs hxs
    exact (hp.valueAt_answers hi (solution_of_current hs) hxs).unbroken
  · exact Outcome.unbroken_refused _

theorem linearText_answers (l : Linear) : Answers (p.linearText l) := by
  have hname (v : Variable) : Answers (p.nameOrMark v) := by
    unfold nameOrMark
    obtain ⟨name, hn⟩ | ⟨e, he⟩ := (hp.nameOf_unbroken v).cases
    · rw [hn]
      exact .ok name
    · rw [he]
      exact .ok "<disposed>"
  exact (Answers.mapM fun t _ => (hname t.var).bind fun _ _ => .ok _).bind fun _ _ => .ok _

omit hp in
theorem shown_answers {x : Outcome α} (h : Answers x) : Answers (shown x) := by
  obtain ⟨a, rfl⟩ := h
  exact .ok a

theorem valueLine_answers {s : Solution} (hs : p.currentSolution = .ok s) {h : Handle kind}
    (hh : h ∈ p.handles kind) : Answers (p.valueLine h) := by
  have hi := hp.indexOf_of_mem hh
  have hvalue : Answers (p.value h) := by
    have hx := hp.rawValueAt_answers hi (solution_of_current hs)
    simp only [value, hi, hs, Outcome.bind_ok]
    exact hx.bind fun _ _ => .ok _
  exact (shown_answers (hp.nameAt_answers hi)).bind fun _ _ =>
    (shown_answers hvalue).bind fun _ _ => .ok _

theorem boundLine_answers {h : Handle kind} (hh : h ∈ p.handles kind) :
    Answers (p.boundLine h) := by
  have hi := hp.indexOf_of_mem hh
  exact (shown_answers (hp.nameAt_answers hi)).bind fun _ _ =>
    (shown_answers (hp.boundAt_answers hi)).bind fun _ _ => .ok _

theorem solvedLines_answers {s : Solution} (hs : p.currentSolution = .ok s) (objective : Float) :
    Answers (p.solvedLines objective) := by
  unfold solvedLines
  rw [hp.objectiveLinear_eq]
  have hrest (form : List String) : Answers (do
      let total := p.objectiveName.getD "obj" ++ "=" ++ numberText objective
      let vars ← p.vars.mapM p.valueLine
      let constraints ← p.constraints.mapM p.valueLine
      return form ++ total :: vars ++ constraints : Outcome (List String)) :=
    (Answers.mapM fun _ hv => hp.valueLine_answers hs hv).bind fun _ _ =>
      (Answers.mapM fun _ hc => hp.valueLine_answers hs hc).bind fun _ _ => .ok _
  cases (if p.objectiveForm.isEmpty then none else some p.objectiveForm) with
  | none => exact hrest []
  | some l => exact (hp.linearText_answers l).bind fun text _ => hrest [text]

theorem openLines_answers : Answers p.openLines :=
  (Answers.mapM fun _ hv => hp.boundLine_answers hv).bind fun _ _ =>
    (Answers.mapM fun _ hc => hp.boundLine_answers hc).bind fun _ _ => .ok _

theorem text_answers : Answers p.text := by
  have hlines : Answers p.lines := by
    unfold lines objectiveValue
    obtain ⟨s, hs⟩ | ⟨e, he⟩ := (currentSolution_unbroken p).cases
    · rw [hs]
      exact hp.solvedLines_answers hs _
    · rw [he]
      exact hp.openLines_answers
  exact hlines.bind fun _ _ => .ok _

end Consistent

/-- Whatever is read of the problem, there is an answer or a refusal, and an answer where nothing
can be missing. -/
structure Readable (p : Problem) : Prop where
  indexOf {k : EntityKind} (h : Handle k) : Unbroken (p.indexOf h)
  nameOf {k : EntityKind} (h : Handle k) : Unbroken (p.nameOf h)
  bound {k : EntityKind} (h : Handle k) : Unbroken (p.bound h)
  lowerBound {k : EntityKind} (h : Handle k) : Unbroken (p.lowerBound h)
  upperBound {k : EntityKind} (h : Handle k) : Unbroken (p.upperBound h)
  variableType (v : Variable) : Unbroken (p.variableType v)
  isMip : Answers p.isMip
  linear (c : Constraint) : Unbroken (p.linear c)
  isEmpty (c : Constraint) : Unbroken (p.isEmpty c)
  objectiveLinear : Answers p.objectiveLinear
  objectiveValue : Unbroken p.objectiveValue
  value {k : EntityKind} (h : Handle k) : Unbroken (p.value h)
  dual {k : EntityKind} (h : Handle k) : Unbroken (p.dual h)
  linearText (l : Linear) : Answers (p.linearText l)
  text : Answers p.text
  toDocument : Answers p.toDocument
  save (files : Files) (name : String) : Answers (p.save files name)
  captureBounds {k : EntityKind} (hs : List (Handle k)) : Unbroken (BoundSnapshot.capture p hs)
  captureDefinition (c : Constraint) : Unbroken (ConstraintSnapshot.capture p c)
  captureValues (vs : List Variable) : Unbroken (ValueSnapshot.capture p vs)
  captureAllValues : Unbroken (ValueSnapshot.captureAll p)
  evaluate (s : ValueSnapshot) (l : Linear) : Unbroken (s.evaluate l)
  isSatisfied (s : ValueSnapshot) (c : Constraint) : Unbroken (s.isSatisfied p c)

theorem Consistent.readable (hp : p.Consistent) : p.Readable := by
  have hvalues (vs : List Variable) : Unbroken (ValueSnapshot.capture p vs) := by
    unfold ValueSnapshot.capture
    split
    · refine (Unbroken.mapM fun v _ => ?_).bind fun _ _ => Outcome.unbroken_ok _
      exact (hp.value_unbroken v).bind fun _ _ => Outcome.unbroken_ok _
    · exact Outcome.unbroken_refused _
  refine {
    indexOf := p.indexOf_unbroken
    nameOf := hp.nameOf_unbroken
    bound := hp.bound_unbroken
    lowerBound := fun h => (hp.bound_unbroken h).bind fun _ _ => Outcome.unbroken_ok _
    upperBound := fun h => (hp.bound_unbroken h).bind fun _ _ => Outcome.unbroken_ok _
    variableType := hp.variableType_unbroken
    isMip := hp.isMip_answers
    linear := hp.linear_unbroken
    isEmpty := fun c => (hp.entriesOf_unbroken c).bind fun _ _ => Outcome.unbroken_ok _
    objectiveLinear := ⟨_, hp.objectiveLinear_eq⟩
    objectiveValue := objectiveValue_unbroken p
    value := hp.value_unbroken
    dual := hp.dual_unbroken
    linearText := hp.linearText_answers
    text := hp.text_answers
    toDocument := ⟨_, hp.toDocument_eq⟩
    save := fun files name => ⟨_, by rw [Problem.save, hp.toDocument_eq]; rfl⟩
    captureBounds := ?_
    captureDefinition := ?_
    captureValues := hvalues
    captureAllValues := hvalues p.vars
    evaluate := evaluate_unbroken
    isSatisfied := ?_ }
  · intro kind hs
    refine (Unbroken.mapM fun h _ => ?_).bind fun _ _ => Outcome.unbroken_ok _
    exact (hp.bound_unbroken h).bind fun _ _ => Outcome.unbroken_ok _
  · intro c
    exact (hp.nameOf_unbroken c).bind fun _ _ => (hp.linear_unbroken c).bind fun _ _ =>
      (hp.bound_unbroken c).bind fun _ _ => Outcome.unbroken_ok _
  · intro s c
    have hactivity (x : Float) : Unbroken (do
        return (← p.bound c).contains x s.tolerance : Outcome Bool) :=
      (hp.bound_unbroken c).bind fun _ _ => Outcome.unbroken_ok _
    refine (hp.linear_unbroken c).bind fun l _ => ?_
    cases l with
    | none => exact hactivity 0
    | some l => exact (evaluate_unbroken s l).bind fun x _ => hactivity x

end Reads

end Problem

end LinearProgram
