import LinearProgram.Proofs.Problem.Readable

namespace LinearProgram

open Outcome (Unbroken)

namespace Outcome.Unbroken

theorem error {α β : Type} {e : Failure Error} (h : Unbroken (.error e : Outcome α)) :
    Unbroken (.error e : Outcome β) := by
  intro defect hd
  cases hd
  exact h defect rfl

theorem forM {α : Type} {f : α → Outcome Unit} {l : List α} (hf : ∀ a ∈ l, Unbroken (f a)) :
    Unbroken (l.forM f) := by
  induction l with
  | nil => exact unbroken_ok _
  | cons a l ih =>
    rw [List.forall_mem_cons] at hf
    exact bind hf.1 fun _ _ => ih hf.2

end Outcome.Unbroken

namespace Edit

variable {ε σ α β : Type} {x : EStateM ε σ α} {f : α → EStateM ε σ β} {s t : σ}

theorem outcome_bind_ok {a : α} (h : x s = .ok a t) : outcome (x >>= f) s = outcome (f a) t := by
  simp only [outcome, bind_apply, h]

theorem outcome_bind_error {e : ε} (h : x s = .error e t) : outcome (x >>= f) s = .error e := by
  simp only [outcome, bind_apply, h]

end Edit

namespace Problem

variable {α β : Type} {kind : EntityKind} {p : Problem}

section Checking

theorem checkRecordName_unbroken (p : Problem) (kind : EntityKind) (before : List String)
    (name : String) : Unbroken (p.checkRecordName kind before name) := by
  refine (p.checkName_unbroken kind name).bind fun _ _ => ?_
  split
  · exact Outcome.unbroken_refused _
  · exact Outcome.unbroken_ok _

theorem checkCoefficient_unbroken (x : Float) : Unbroken (checkCoefficient x) := by
  unfold checkCoefficient
  split
  · exact Outcome.unbroken_refused _
  · exact Outcome.unbroken_ok _

theorem checkVariables_unbroken (p : Problem) (before : List String)
    (records : List VariableRecord) : Unbroken (p.checkVariables before records) := by
  induction records generalizing before with
  | nil => exact Outcome.unbroken_ok _
  | cons r records ih =>
    have hrest : Unbroken (do
        checkCoefficient r.objective
        p.checkVariables (r.name :: before) records) :=
      (checkCoefficient_unbroken r.objective).bind fun _ _ => ih _
    refine (p.checkRecordName_unbroken .var before r.name).bind fun _ _ => ?_
    split
    · exact hrest
    · exact r.bound.validate_unbroken.bind fun _ _ => hrest

theorem checkTerm_unbroken (known : List String) (constraint : String) (t : String × Float) :
    Unbroken (checkTerm known constraint t) := by
  unfold checkTerm
  split
  · exact checkCoefficient_unbroken t.2
  · exact Outcome.unbroken_refused _

theorem checkConstraints_unbroken (p : Problem) (known before : List String)
    (records : List ConstraintRecord) : Unbroken (p.checkConstraints known before records) := by
  induction records generalizing before with
  | nil => exact Outcome.unbroken_ok _
  | cons r records ih =>
    have hterms : Unbroken (r.terms.forM (checkTerm known r.name)) :=
      .forM fun t _ => checkTerm_unbroken known r.name t
    exact (p.checkRecordName_unbroken .constraint before r.name).bind fun _ _ =>
      r.bound.validate_unbroken.bind fun _ _ => hterms.bind fun _ _ => ih _

theorem checkDocument_unbroken (p : Problem) (d : Document) : Unbroken (p.checkDocument d) :=
  (p.checkVariables_unbroken [] d.vars).bind fun _ _ =>
    (p.checkConstraints_unbroken _ [] d.constraints).bind fun _ _ =>
      (checkTitle_unbroken d.name).bind fun _ _ => checkTitle_unbroken d.objectiveName

end Checking

section Editing

theorem Moves.unbroken {x : Edit α} {c : Change} {d : Nat} (h : Moves c d x p) :
    Unbroken (Edit.outcome x p) := by
  obtain ⟨-, ⟨e, he⟩ | ⟨a, ha⟩⟩ | ⟨-, a, q, hq, -⟩ := h
  · rw [Edit.outcome_error he]
    exact Outcome.unbroken_refused e
  · rw [Edit.outcome_ok ha]
    exact Outcome.unbroken_ok a
  · rw [Edit.outcome_ok hq]
    exact Outcome.unbroken_ok a

structure Sure (x : Edit α) : Prop where
  unbroken : ∀ p, p.Consistent → (Edit.final x p).InCapacity → Unbroken (Edit.outcome x p)
  preserves : Preserves x
  grows : Grows x

namespace Sure

theorem pure (a : α) : Sure (pure a : Edit α) :=
  ⟨fun _ _ _ => Outcome.unbroken_ok a, Edit.Keeps.pure a, .pure a⟩

theorem bind {x : Edit α} {f : α → Edit β} (hx : Sure x) (hf : ∀ a, Sure (f a)) :
    Sure (x >>= f) := by
  refine ⟨fun p hp hroom => ?_, hx.preserves.bind fun a => (hf a).preserves,
    hx.grows.bind fun a => (hf a).grows⟩
  have hfirst := inCapacity_of_bind (fun a => (hf a).grows) hroom
  have hunbroken := hx.unbroken p hp hfirst
  have hconsistent := hx.preserves p (fun _ => hp) hfirst
  cases hq : x p with
  | ok a q =>
    rw [Edit.final_ok hq] at hconsistent
    rw [Edit.final_bind_ok hq] at hroom
    rw [Edit.outcome_bind_ok hq]
    exact (hf a).unbroken q hconsistent hroom
  | error e q =>
    rw [Edit.outcome_error hq] at hunbroken
    rw [Edit.outcome_bind_error hq]
    exact hunbroken.error

theorem forM {f : α → Edit PUnit} (hf : ∀ a, Sure (f a)) (l : List α) : Sure (l.forM f) := by
  induction l with
  | nil => exact pure _
  | cons a l ih => exact bind (hf a) fun _ => ih

theorem mapM {f : α → Edit β} (hf : ∀ a, Sure (f a)) (l : List α) : Sure (l.mapM f) := by
  induction l with
  | nil => exact pure _
  | cons a l ih =>
    rw [List.mapM_cons]
    exact bind (hf a) fun b => bind ih fun bs => pure _

theorem ask {read : Problem → Outcome α} (h : ∀ p, p.Consistent → Unbroken (read p)) :
    Sure (ask read) := by
  refine ⟨fun p hp _ => ?_, .ask read, .ask read⟩
  obtain ⟨a, ha⟩ | ⟨e, he⟩ := (h p hp).cases
  · rw [Edit.outcome_ok (ask_ok ha)]
    exact Outcome.unbroken_ok a
  · simp only [Edit.outcome, Problem.ask, he]
    exact Outcome.unbroken_refused e

theorem addVariable (name : String) (type : VarType) : Sure (addVariable name type) :=
  ⟨fun _ hp hroom => (hp.moves_addVariable hroom).unbroken, .addVariable name type,
    .addVariable name type⟩

theorem addConstraint (name : String) (l : Option Linear) (b : Bound) :
    Sure (addConstraint name l b) :=
  ⟨fun _ hp hroom => (hp.moves_addConstraint hroom).unbroken, .addConstraint name l b,
    .addConstraint name l b⟩

theorem setBound (h : Handle kind) (b : Bound) : Sure (setBound h b) :=
  ⟨fun _ hp _ => (hp.moves_setBound h b).unbroken, .setBound h b, .setBound h b⟩

theorem setObjective (l : Option Linear) : Sure (setObjective l) :=
  ⟨fun _ hp _ => (hp.moves_setObjective l).unbroken, .setObjective l, .setObjective l⟩

theorem setDirection (direction : Direction) : Sure (setDirection direction) :=
  ⟨fun _ _ _ => (Consistent.moves_setDirection direction).unbroken, .setDirection direction,
    .setDirection direction⟩

theorem setName (name : Option String) : Sure (setName name) :=
  ⟨fun _ _ _ => (Consistent.moves_setName name).unbroken, .setName name, .setName name⟩

theorem setObjectiveName (name : Option String) : Sure (setObjectiveName name) :=
  ⟨fun _ _ _ => (Consistent.moves_setObjectiveName name).unbroken, .setObjectiveName name,
    .setObjectiveName name⟩

theorem setTitle {set : Option String → Edit Unit} (hs : ∀ name, Sure (set name))
    (name : Option String) : Sure (setTitle set name) := by
  unfold Problem.setTitle
  split
  · exact hs name
  · exact pure ()

theorem addVariableRecord (r : VariableRecord) : Sure (addVariableRecord r) := by
  unfold Problem.addVariableRecord
  refine bind (addVariable r.name r.type) fun v => ?_
  split
  · exact pure v
  · exact bind (setBound v r.bound) fun _ => pure v

theorem addConstraintRecord (named : List (String × Variable)) (r : ConstraintRecord) :
    Sure (addConstraintRecord named r) :=
  bind (addConstraint _ _ _) fun _ => pure ()

theorem appendDocument (d : Document) : Sure (appendDocument d) := by
  unfold Problem.appendDocument
  refine bind (ask fun p _ => p.checkDocument_unbroken d) fun _ => ?_
  refine bind (ask fun p hp => hp.readable.objectiveLinear.unbroken) fun objective => ?_
  refine bind (mapM addVariableRecord _) fun created => ?_
  refine bind (forM (addConstraintRecord _) _) fun _ => ?_
  refine bind (setObjective _) fun _ => bind (setDirection _) fun _ => ?_
  exact bind (setTitle setName _) fun _ => bind (setTitle setObjectiveName _) fun _ => pure created

theorem load (files : Files) (name : String) : Sure (load files name) := by
  unfold Problem.load
  refine bind (ask fun p _ => ?_) fun text => bind (ask fun p _ => ?_) fun d => appendDocument d
  · unfold Files.read
    split
    · exact Outcome.unbroken_ok _
    · exact Outcome.unbroken_refused _
  · unfold Document.ofJson
    split
    · exact Outcome.unbroken_ok _
    · exact Outcome.unbroken_refused _

theorem restoreBounds (s : BoundSnapshot kind) : Sure s.restore := by
  unfold BoundSnapshot.restore
  apply forM
  exact fun e => setBound e.1 e.2

end Sure

end Editing

end Problem

namespace Operation

open Problem

variable {p : Problem}

theorem unbroken (op : Operation) (hp : p.Consistent) (hroom : (op.after p).InCapacity) :
    Unbroken (Edit.outcome op.perform p) := by
  by_cases hop : op.isComposite = false
  · obtain ⟨c, -, h⟩ := op.moves hp hop hroom
    exact h.unbroken
  · cases op with
    | append d => exact ((Sure.appendDocument d).bind fun _ => .pure _).unbroken p hp hroom
    | load files name => exact ((Sure.load files name).bind fun _ => .pure _).unbroken p hp hroom
    | restoreBounds kind s =>
      exact ((Sure.restoreBounds s).bind fun _ => .pure _).unbroken p hp hroom
    | _ => exact absurd rfl hop

end Operation

namespace Problem

/-- No read and no operation breaks, and every key leads to a slot. -/
theorem unbroken_of_reachable {p : Problem} (h : p.Reachable) :
    p.Readable ∧
      (∀ op : Operation, (op.after p).InCapacity → Unbroken (Edit.outcome op.perform p)) ∧
      ∀ kind, ∀ key ∈ (p.table kind).order, key.slot.toNat < (p.table kind).slots.length := by
  have hp := h.consistent
  refine ⟨hp.readable, fun op hroom => op.unbroken hp hroom, fun kind key hkey => ?_⟩
  obtain ⟨i, hi⟩ := List.mem_iff_getElem?.mp hkey
  obtain ⟨name, -, ht⟩ := (hp.lists kind).resolves i key hi
  obtain ⟨hslot, -⟩ := List.getElem?_eq_some_iff.mp (Table.tenant?_eq_some_iff.mp ht)
  exact hslot

theorem unbroken_of_solved :
    let p := (Operation.dispose .var ⟨⟨0⟩, ⟨0, 0⟩⟩).after solvedPair
    p.Readable ∧ ((Operation.append opposed).after p).InCapacity ∧
      Unbroken (Edit.outcome (Operation.append opposed).perform p) := by
  intro p
  have hp : p.Reachable :=
    .step _ (.step _ reachable_paired (by decide +kernel)) (by decide +kernel)
  have hroom : ((Operation.append opposed).after p).InCapacity := by decide +kernel
  obtain ⟨hreads, hedits, -⟩ := unbroken_of_reachable hp
  exact ⟨hreads, hroom, hedits (.append opposed) hroom⟩

end Problem

end LinearProgram
