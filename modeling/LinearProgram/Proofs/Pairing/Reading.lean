import LinearProgram.Document.Files
import LinearProgram.Problem.Display
import LinearProgram.Proofs.Document.Description
import LinearProgram.Proofs.Pairing.Alike

namespace LinearProgram.Problem

variable {R : Pairing} {p q : Problem} {n : Nat}

/-- Whatever is read of the one problem by handle, position or name is read of the other. -/
structure Indistinct (R : Pairing) (p q : Problem) : Prop where
  contents : SameContents p q
  handles (kind : EntityKind) : List.Forall₂ (R kind) (p.handles kind) (q.handles kind)
  handleAt? (kind : EntityKind) (i : Nat) :
    Option.Rel (R kind) (p.handleAt? kind i) (q.handleAt? kind i)
  indexOf {kind : EntityKind} {h h' : Handle kind} (hh : R kind h h') : p.indexOf h = q.indexOf h'
  isDisposed {kind : EntityKind} {h h' : Handle kind} (hh : R kind h h') :
    p.isDisposed h = q.isDisposed h'
  nameOf {kind : EntityKind} {h h' : Handle kind} (hh : R kind h h') : p.nameOf h = q.nameOf h'
  bound {kind : EntityKind} {h h' : Handle kind} (hh : R kind h h') : p.bound h = q.bound h'
  lowerBound {kind : EntityKind} {h h' : Handle kind} (hh : R kind h h') :
    p.lowerBound h = q.lowerBound h'
  upperBound {kind : EntityKind} {h h' : Handle kind} (hh : R kind h h') :
    p.upperBound h = q.upperBound h'
  variableType {v v' : Variable} (hv : R .var v v') : p.variableType v = q.variableType v'
  isMip : p.isMip = q.isMip
  linear {c c' : Constraint} (hc : R .constraint c c') :
    Outcome.Paired (Option.Rel (Linear.Paired R)) (p.linear c) (q.linear c')
  isEmpty {c c' : Constraint} (hc : R .constraint c c') : p.isEmpty c = q.isEmpty c'
  objectiveLinear :
    Outcome.Paired (Option.Rel (Linear.Paired R)) p.objectiveLinear q.objectiveLinear
  objectiveValue : p.objectiveValue = q.objectiveValue
  value {kind : EntityKind} {h h' : Handle kind} (hh : R kind h h') : p.value h = q.value h'
  dual {kind : EntityKind} {h h' : Handle kind} (hh : R kind h h') : p.dual h = q.dual h'
  linearText {l l' : Linear} (hl : Linear.Paired R l l') : p.linearText l = q.linearText l'
  text : p.text = q.text
  toDocument : p.toDocument = q.toDocument
  save (files : Files) (name : String) : p.save files name = q.save files name
  bounds {kind : EntityKind} {hs hs' : List (Handle kind)} (hhs : List.Forall₂ (R kind) hs hs') :
    Outcome.Paired (BoundSnapshot.Paired R) (BoundSnapshot.capture p hs)
      (BoundSnapshot.capture q hs')
  definition {c c' : Constraint} (hc : R .constraint c c') :
    Outcome.Paired (ConstraintSnapshot.Paired R) (ConstraintSnapshot.capture p c)
      (ConstraintSnapshot.capture q c')
  values {vs vs' : List Variable} (hvs : List.Forall₂ (R .var) vs vs') :
    Outcome.Paired (ValueSnapshot.Paired R) (ValueSnapshot.capture p vs)
      (ValueSnapshot.capture q vs')
  allValues : Outcome.Paired (ValueSnapshot.Paired R) (ValueSnapshot.captureAll p)
    (ValueSnapshot.captureAll q)
  isSatisfied {s s' : ValueSnapshot} (hs : ValueSnapshot.Paired R s s') {c c' : Constraint}
    (hc : R .constraint c c') : s.isSatisfied p c = s'.isSatisfied q c'

namespace Alike

variable (h : Alike R n p q)
include h

section Entities

variable {kind : EntityKind} {g g' : Handle kind}

theorem handleAt?_rel (kind : EntityKind) (i : Nat) :
    Option.Rel (R kind) (p.handleAt? kind i) (q.handleAt? kind i) := by
  have hp : p.handleAt? kind i = (p.handles kind)[i]? := List.getElem?_map.symm
  have hq : q.handleAt? kind i = (q.handles kind)[i]? := List.getElem?_map.symm
  have hlen := h.length_handles_eq kind
  rw [hp, hq]
  by_cases hi : i < (p.handles kind).length
  · have hl := List.getElem?_eq_getElem hi
    have hr := List.getElem?_eq_getElem (hlen ▸ hi)
    have hpair := h.abreast _ _ _ ⟨i, hl, hr⟩
    rw [hl, hr]
    exact .some hpair
  · rw [List.getElem?_eq_none (by omega), List.getElem?_eq_none (by omega)]
    exact .none

theorem isDisposed_eq (hg : R kind g g') : p.isDisposed g = q.isDisposed g' := by
  rw [Bool.eq_iff_iff, h.left.isDisposed_iff, h.right.isDisposed_iff, h.mem_iff hg]

theorem nameOf_eq (hg : R kind g g') : p.nameOf g = q.nameOf g' := by
  have hindex := h.index_eq hg
  cases hi : p.indexOf g with
  | error e =>
    rw [hi] at hindex
    simp only [nameOf, hi, ← hindex, Outcome.bind_error]
  | ok i =>
    obtain ⟨name, hn⟩ : ∃ name, (p.tableau.names kind)[i]? = some name :=
      ⟨_, List.getElem?_eq_getElem (h.left.index_lt hi)⟩
    rw [hi] at hindex
    rw [h.left.nameOf_eq hi hn]
    rw [h.same.tableau] at hn
    exact (h.right.nameOf_eq hindex.symm hn).symm

theorem boundAt_eq (kind : EntityKind) (i : Nat) : p.boundAt kind i = q.boundAt kind i := by
  cases kind <;> simp only [boundAt, h.same.tableau]

theorem bound_eq (hg : R kind g g') : p.bound g = q.bound g' := by
  simp only [bound, h.index_eq hg, h.boundAt_eq]

theorem size_columns_eq : p.columns.size = q.columns.size := by
  rw [h.left.size_columns, h.right.size_columns, h.same.tableau]

theorem size_rows_eq : p.rows.size = q.rows.size := by
  rw [h.left.size_rows, h.right.size_rows, h.same.tableau]

theorem isMip_eq : p.isMip = q.isMip := by
  simp only [isMip, kindAt, h.size_columns_eq, h.same.tableau]

theorem checkName_eq (kind : EntityKind) (name : String) :
    p.checkName kind name = q.checkName kind name := by
  have havailable : (p.table kind).isNameAvailable name = (q.table kind).isNameAvailable name := by
    rw [Bool.eq_iff_iff, (h.left.lists kind).isNameAvailable_iff,
      (h.right.lists kind).isNameAvailable_iff, h.same.tableau]
  simp only [checkName, havailable]

end Entities

section Forms

variable {v v' : Variable} {c c' : Constraint} {l l' : Linear} {t t' : Term}

theorem variableType_eq (hv : R .var v v') : p.variableType v = q.variableType v' := by
  simp only [variableType, h.index_eq hv, h.same.tableau]

theorem entriesOf_eq (hc : R .constraint c c') : p.entriesOf c = q.entriesOf c' := by
  simp only [entriesOf, h.index_eq hc, h.same.tableau]

theorem isEmpty_eq (hc : R .constraint c c') : p.isEmpty c = q.isEmpty c' := by
  simp only [isEmpty, h.entriesOf_eq hc]

theorem variableOf_paired (i : Nat) :
    Outcome.Paired (R .var) (p.variableOf i) (q.variableOf i) := by
  have hat := h.handleAt?_rel .var i
  unfold variableOf
  generalize p.handleAt? .var i = x at hat
  generalize q.handleAt? .var i = y at hat
  cases hat with
  | none => exact .error _
  | some hv => exact .ok hv

theorem terms_paired (entries : List Entry) :
    Outcome.Paired (List.Forall₂ (Term.Paired R)) (entries.mapM p.termOf)
      (entries.mapM q.termOf) := by
  have hsame : List.Forall₂ Eq entries entries := List.forall₂_refl entries
  refine Outcome.Paired.mapM hsame ?_
  rintro e _ rfl
  exact (h.variableOf_paired e.column).map fun _ _ hv => ⟨rfl, hv⟩

theorem linear_paired (hc : R .constraint c c') :
    Outcome.Paired (Option.Rel (Linear.Paired R)) (p.linear c) (q.linear c') := by
  unfold linear
  rw [h.entriesOf_eq hc]
  refine (Outcome.paired_refl _).bind ?_
  rintro entries _ rfl
  cases entries with
  | nil => exact .ok .none
  | cons e entries =>
    exact (h.terms_paired _).map fun _ _ hts => .some (Linear.Paired.ofTerms h.oneToOne hts)

theorem objectiveLinear_paired :
    Outcome.Paired (Option.Rel (Linear.Paired R)) p.objectiveLinear q.objectiveLinear := by
  unfold objectiveLinear objectiveTerms
  rw [h.same.tableau]
  refine (h.terms_paired _).map fun ts ts' hts => ?_
  have hl := Linear.Paired.ofTerms h.oneToOne hts
  rw [hl.isEmpty_eq]
  split
  · exact .none
  · exact .some hl

end Forms

section Solved

variable {kind : EntityKind} {g g' : Handle kind}

theorem currentSolution_eq : p.currentSolution = q.currentSolution := by
  simp only [currentSolution, h.same.solution, h.same.status]

theorem objectiveValue_eq : p.objectiveValue = q.objectiveValue := by
  simp only [objectiveValue, h.currentSolution_eq, h.same.scale]

theorem rawValueAt_eq (s : Solution) (kind : EntityKind) (i : Nat) :
    p.rawValueAt s kind i = q.rawValueAt s kind i := by
  cases kind <;> simp only [rawValueAt, h.same.tableau]

theorem value_eq (hg : R kind g g') : p.value g = q.value g' := by
  simp only [value, h.index_eq hg, h.currentSolution_eq, h.rawValueAt_eq, h.same.scale]

theorem dual_eq (hg : R kind g g') : p.dual g = q.dual g' := by
  simp only [dual, h.index_eq hg, h.currentSolution_eq]

end Solved

section Texts

variable {kind : EntityKind} {g g' : Handle kind}

theorem linearText_eq {l l' : Linear} (hl : Linear.Paired R l l') :
    p.linearText l = q.linearText l' := by
  have hterms : l.terms.mapM p.termText = l'.terms.mapM q.termText := by
    refine Outcome.mapM_congr hl.terms fun t t' ht => ?_
    simp only [termText, nameOrMark, ht.coefficient, h.nameOf_eq ht.var]
  simp only [linearText, hterms]

theorem valueLine_eq (hg : R kind g g') : p.valueLine g = q.valueLine g' := by
  simp only [valueLine, h.nameOf_eq hg, h.value_eq hg]

theorem boundLine_eq (hg : R kind g g') : p.boundLine g = q.boundLine g' := by
  simp only [boundLine, h.nameOf_eq hg, h.bound_eq hg]

theorem mapM_handles_eq {α : Type} {f g : Handle kind → Outcome α}
    (hf : ∀ h h', R kind h h' → f h = g h') : (p.handles kind).mapM f = (q.handles kind).mapM g :=
  Outcome.mapM_congr (h.handles kind) hf

theorem solvedLines_eq (x : Float) : p.solvedLines x = q.solvedLines x := by
  have hvars : p.vars.mapM p.valueLine = q.vars.mapM q.valueLine :=
    h.mapM_handles_eq fun _ _ hv => h.valueLine_eq hv
  have hconstraints : p.constraints.mapM p.valueLine = q.constraints.mapM q.valueLine :=
    h.mapM_handles_eq fun _ _ hc => h.valueLine_eq hc
  simp only [solvedLines, hvars, hconstraints, h.same.objectiveName]
  refine h.objectiveLinear_paired.bind_eq fun l l' hl => ?_
  cases hl with
  | none => rfl
  | some hl => simp only [h.linearText_eq hl]

theorem openLines_eq : p.openLines = q.openLines := by
  have hvars : p.vars.mapM p.boundLine = q.vars.mapM q.boundLine :=
    h.mapM_handles_eq fun _ _ hv => h.boundLine_eq hv
  have hconstraints : p.constraints.mapM p.boundLine = q.constraints.mapM q.boundLine :=
    h.mapM_handles_eq fun _ _ hc => h.boundLine_eq hc
  simp only [openLines, hvars, hconstraints]

theorem text_eq : p.text = q.text := by
  simp only [text, lines, h.objectiveValue_eq, h.solvedLines_eq, h.openLines_eq]

theorem toDocument_eq : p.toDocument = q.toDocument := by
  rw [h.left.toDocument_eq, h.right.toDocument_eq, description, description, h.same.tableau,
    h.same.name, h.same.objectiveName]

end Texts

section Captures

theorem capture_bounds_paired {kind : EntityKind} {hs hs' : List (Handle kind)}
    (hhs : List.Forall₂ (R kind) hs hs') :
    Outcome.Paired (BoundSnapshot.Paired R) (BoundSnapshot.capture p hs)
      (BoundSnapshot.capture q hs') := by
  have hcaptured : Outcome.Paired (List.Forall₂ fun e e' => R kind e.1 e'.1 ∧ e.2 = e'.2)
      (hs.mapM (BoundSnapshot.captured p)) (hs'.mapM (BoundSnapshot.captured q)) := by
    refine Outcome.Paired.mapM hhs fun g g' hg => ?_
    unfold BoundSnapshot.captured
    rw [h.bound_eq hg]
    exact (Outcome.paired_refl _).map fun _ _ hb => ⟨hg, hb⟩
  exact hcaptured.map fun _ _ hes => Registry.Paired.ofList (h.oneToOne kind) hes

theorem capture_definition_paired {c c' : Constraint} (hc : R .constraint c c') :
    Outcome.Paired (ConstraintSnapshot.Paired R) (ConstraintSnapshot.capture p c)
      (ConstraintSnapshot.capture q c') := by
  unfold ConstraintSnapshot.capture
  rw [h.nameOf_eq hc, h.bound_eq hc]
  refine (Outcome.paired_refl _).bind fun name _ hname => ?_
  refine (h.linear_paired hc).bind fun l l' hl => ?_
  refine (Outcome.paired_refl _).map fun b _ hb => ⟨hname, ?_, hb⟩
  cases hl with
  | none => exact .none
  | some hl => exact .some hl

theorem capture_values_paired {vs vs' : List Variable} (hvs : List.Forall₂ (R .var) vs vs') :
    Outcome.Paired (ValueSnapshot.Paired R) (ValueSnapshot.capture p vs)
      (ValueSnapshot.capture q vs') := by
  have hcaptured : Outcome.Paired (List.Forall₂ fun e e' => R .var e.1 e'.1 ∧ e.2 = e'.2)
      (vs.mapM (ValueSnapshot.captured p)) (vs'.mapM (ValueSnapshot.captured q)) := by
    refine Outcome.Paired.mapM hvs fun v v' hv => ?_
    unfold ValueSnapshot.captured
    rw [h.value_eq hv]
    exact (Outcome.paired_refl _).map fun _ _ hx => ⟨hv, hx⟩
  unfold ValueSnapshot.capture
  rw [h.same.status]
  split
  · exact hcaptured.map fun _ _ hes => ⟨Registry.Paired.ofList (h.oneToOne .var) hes, rfl⟩
  · exact .error _

theorem isSatisfied_eq {s s' : ValueSnapshot} (hs : ValueSnapshot.Paired R s s')
    {c c' : Constraint} (hc : R .constraint c c') : s.isSatisfied p c = s'.isSatisfied q c' := by
  unfold ValueSnapshot.isSatisfied
  rw [h.bound_eq hc, hs.tolerance]
  refine (h.linear_paired hc).bind_eq fun l l' hl => ?_
  cases hl with
  | none => rfl
  | some hl => simp only [hs.evaluate_eq h.oneToOne hl]

end Captures

theorem indistinct : Indistinct R p q where
  contents := h.same
  handles := h.handles
  handleAt? := h.handleAt?_rel
  indexOf := h.index_eq
  isDisposed := h.isDisposed_eq
  nameOf := h.nameOf_eq
  bound := h.bound_eq
  lowerBound hh := by simp only [lowerBound, h.bound_eq hh]
  upperBound hh := by simp only [upperBound, h.bound_eq hh]
  variableType := h.variableType_eq
  isMip := h.isMip_eq
  linear := h.linear_paired
  isEmpty := h.isEmpty_eq
  objectiveLinear := h.objectiveLinear_paired
  objectiveValue := h.objectiveValue_eq
  value := h.value_eq
  dual := h.dual_eq
  linearText := h.linearText_eq
  text := h.text_eq
  toDocument := h.toDocument_eq
  save files name := by simp only [save, h.toDocument_eq]
  bounds := h.capture_bounds_paired
  definition := h.capture_definition_paired
  values := h.capture_values_paired
  allValues := h.capture_values_paired (h.handles .var)
  isSatisfied := h.isSatisfied_eq

end Alike

end LinearProgram.Problem
