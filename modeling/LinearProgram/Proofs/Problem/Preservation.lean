import LinearProgram.Document.Files
import LinearProgram.Proofs.Problem.Growth
import LinearProgram.Proofs.Problem.Steps
import LinearProgram.Snapshot.Bounds
import LinearProgram.Snapshot.Definition

namespace LinearProgram.Problem

variable {α β : Type} {kind : EntityKind} {p : Problem}

theorem Refuses.final {x : Edit α} (h : Refuses x p) : Edit.final x p = p := by
  obtain ⟨e, he⟩ := h
  exact Edit.final_error he

def KeepsConsistent (x : Edit α) (p : Problem) : Prop :=
  (Edit.final x p).InCapacity → (Edit.final x p).Consistent

namespace Consistent

variable (hp : p.Consistent)
include hp

theorem of_refuses {x : Edit α} (h : Refuses x p) : KeepsConsistent x p := by
  intro _
  rwa [h.final]

theorem after_ask {read : Problem → Outcome α} {f : α → Edit β}
    (hf : ∀ a, read p = .ok a → KeepsConsistent (f a) p) : KeepsConsistent (ask read >>= f) p := by
  unfold KeepsConsistent
  cases ha : read p with
  | ok a =>
    rw [Edit.final_bind_ok (ask_ok ha)]
    exact hf a ha
  | error e =>
    have hask : ask read p = .error e p := by simp only [ask, ha]
    rw [Edit.final_bind_error hask]
    exact fun _ => hp

theorem after_addVariable (name : String) (type : VarType) :
    KeepsConsistent (addVariable name type) p := by
  obtain hr | ⟨hn, hq⟩ := hp.addVariable_cases name type
  · exact hp.of_refuses hr
  · intro hroom
    rw [Edit.final_ok hq] at hroom ⊢
    exact (Step.fresh (lt_capacity_of_withColumn hroom) hn type).consistent hp

theorem lt_capacity_of_addInteger {name : String} (hn : Nameable (p.tableau.names .var) name)
    {b : Bound} (hb : b.hasNaN = false)
    (hroom : (Edit.final (addInteger name b) p).InCapacity) : p.columns.size < Table.capacity := by
  have hvalid : ask (fun _ => b.validate) p = .ok () p := ask_ok (Bound.validate_eq_ok_iff.mpr hb)
  unfold addInteger at hroom
  rw [Edit.final_bind_ok hvalid, Edit.final_bind_ok (hp.addVariable_eq hn .integer)] at hroom
  refine lt_capacity_of_withColumn (inCapacity_of_grows ?_ hroom)
  exact Grows.bind (Grows.ask _) fun _ => Grows.bind (Grows.onTableau _) fun _ => Grows.pure _

theorem refuses_or_lt_of_addInteger {name : String} {b : Bound}
    (hroom : (Edit.final (addInteger name b) p).InCapacity) :
    Refuses (addInteger name b) p ∨ p.columns.size < Table.capacity :=
  (hp.addInteger_refuses_or name b).imp_right fun hok =>
    hp.lt_capacity_of_addInteger hok.1 hok.2 hroom

theorem after_addInteger (name : String) (b : Bound) : KeepsConsistent (addInteger name b) p := by
  intro hroom
  obtain hr | hlt := hp.refuses_or_lt_of_addInteger hroom
  · exact hp.of_refuses hr hroom
  · obtain hr | ⟨⟨hn, hb⟩, hq⟩ := hp.addInteger_cases hlt name b
    · exact hp.of_refuses hr hroom
    · rw [Edit.final_ok hq]
      exact (Step.column (c := ⟨name, b, .integer, 0⟩) hlt hn hb rfl).consistent hp

theorem after_addConstraint (name : String) (l : Option Linear) (b : Bound) :
    KeepsConsistent (addConstraint name l b) p := by
  obtain hr | ⟨⟨hn, hl, hb⟩, hq⟩ := hp.addConstraint_cases name l b
  · exact hp.of_refuses hr
  · intro hroom
    rw [Edit.final_ok hq] at hroom ⊢
    exact (Step.row (lt_capacity_of_withRow hroom) hn hb hl).consistent hp

theorem after_dispose (h : Handle kind) : KeepsConsistent (dispose h) p := by
  obtain hr | ⟨-, hq⟩ | ⟨tenant, ht, hh, hq⟩ := hp.dispose_cases h
  · exact hp.of_refuses hr
  · intro _
    rwa [Edit.final_ok hq]
  · intro _
    rw [Edit.final_ok hq]
    exact (Step.removal hh ht).consistent hp

theorem after_setVariableType (v : Variable) (type : VarType) :
    KeepsConsistent (setVariableType v type) p := by
  obtain hr | ⟨hv, hq⟩ := hp.setVariableType_cases v type
  · exact hp.of_refuses hr
  · intro _
    rw [Edit.final_ok hq]
    exact (Step.type type hv).consistent hp

theorem after_setBound (h : Handle kind) (b : Bound) : KeepsConsistent (setBound h b) p := by
  obtain hr | ⟨⟨hh, hb⟩, hq⟩ := hp.setBound_cases h b
  · exact hp.of_refuses hr
  · intro _
    rw [Edit.final_ok hq]
    exact (Step.bound hh hb).consistent hp

theorem after_setLowerBound (h : Handle kind) (lower : Option Float) :
    KeepsConsistent (setLowerBound h lower) p := by
  unfold setLowerBound
  exact hp.after_ask fun b _ => hp.after_setBound h (b.withLower lower)

theorem after_setUpperBound (h : Handle kind) (upper : Option Float) :
    KeepsConsistent (setUpperBound h upper) p := by
  unfold setUpperBound
  exact hp.after_ask fun b _ => hp.after_setBound h (b.withUpper upper)

theorem after_setLinear (c : Constraint) (l : Option Linear) :
    KeepsConsistent (setLinear c l) p := by
  obtain hr | ⟨⟨hc, hl⟩, hq⟩ := hp.setLinear_cases c l
  · exact hp.of_refuses hr
  · intro _
    rw [Edit.final_ok hq]
    exact (Step.entries hc hl).consistent hp

theorem after_setObjective (l : Option Linear) : KeepsConsistent (setObjective l) p := by
  obtain hr | ⟨hl, hq⟩ := hp.setObjective_cases l
  · exact hp.of_refuses hr
  · intro _
    rw [Edit.final_ok hq]
    exact (Step.prices hl).consistent hp

theorem after_setDirection (direction : Direction) :
    KeepsConsistent (setDirection direction) p := by
  intro _
  exact (Step.direction (p := p) direction).consistent hp

theorem after_recordSolution (status : Status) (values : Option Solution) :
    KeepsConsistent (recordSolution status values) p := by
  obtain hr | ⟨solution, hs, hf, hq⟩ := hp.recordSolution_cases status values
  · exact hp.of_refuses hr
  · intro _
    rw [Edit.final_ok hq]
    exact (Step.outcome hs hf).consistent hp

theorem after_setName (name : Option String) : KeepsConsistent (setName name) p := by
  obtain hr | ⟨hn, hq⟩ := setName_cases (p := p) name
  · exact hp.of_refuses hr
  · intro _
    rw [Edit.final_ok hq]
    exact (Step.name hn).consistent hp

theorem after_setObjectiveName (name : Option String) :
    KeepsConsistent (setObjectiveName name) p := by
  obtain hr | ⟨hn, hq⟩ := setObjectiveName_cases (p := p) name
  · exact hp.of_refuses hr
  · intro _
    rw [Edit.final_ok hq]
    exact (Step.objectiveName hn).consistent hp

end Consistent

def Preserves (x : Edit α) : Prop := Edit.Keeps (fun p => p.InCapacity → p.Consistent) x

namespace Preserves

theorem of_grows {x : Edit α} (hx : Grows x) (h : ∀ p, p.Consistent → KeepsConsistent x p) :
    Preserves x :=
  fun p hp hfinal => h p (hp (inCapacity_of_grows hx hfinal)) hfinal

theorem ask (read : Problem → Outcome α) : Preserves (ask read) := by
  intro p hp
  unfold Edit.final Problem.ask
  cases read p <;> exact hp

theorem setBound (h : Handle kind) (b : Bound) : Preserves (setBound h b) :=
  of_grows (Grows.setBound h b) fun _ hp => hp.after_setBound h b

theorem addVariable (name : String) (type : VarType) : Preserves (addVariable name type) :=
  of_grows (Grows.addVariable name type) fun _ hp => hp.after_addVariable name type

theorem addConstraint (name : String) (l : Option Linear) (b : Bound) :
    Preserves (addConstraint name l b) :=
  of_grows (Grows.addConstraint name l b) fun _ hp => hp.after_addConstraint name l b

theorem setObjective (l : Option Linear) : Preserves (setObjective l) :=
  of_grows (Grows.setObjective l) fun _ hp => hp.after_setObjective l

theorem setDirection (direction : Direction) : Preserves (setDirection direction) :=
  of_grows (Grows.setDirection direction) fun _ hp => hp.after_setDirection direction

theorem setTitle {set : Option String → Edit Unit} (hs : ∀ name, Preserves (set name))
    (name : Option String) : Preserves (setTitle set name) := by
  unfold Problem.setTitle
  split
  · exact hs name
  · exact Edit.Keeps.pure ()

theorem setName (name : Option String) : Preserves (setName name) :=
  of_grows (Grows.setName name) fun _ hp => hp.after_setName name

theorem setObjectiveName (name : Option String) : Preserves (setObjectiveName name) :=
  of_grows (Grows.setObjectiveName name) fun _ hp => hp.after_setObjectiveName name

theorem addVariableRecord (r : VariableRecord) : Preserves (addVariableRecord r) := by
  unfold Problem.addVariableRecord
  refine Edit.Keeps.bind (addVariable r.name r.type) fun v => ?_
  split
  · exact Edit.Keeps.pure v
  · exact Edit.Keeps.bind (setBound v r.bound) fun _ => Edit.Keeps.pure v

theorem addConstraintRecord (named : List (String × Variable)) (r : ConstraintRecord) :
    Preserves (addConstraintRecord named r) :=
  Edit.Keeps.bind (addConstraint _ _ _) fun _ => Edit.Keeps.pure ()

theorem appendDocument (d : Document) : Preserves (appendDocument d) := by
  unfold Problem.appendDocument
  refine Edit.Keeps.bind (ask _) fun _ => ?_
  refine Edit.Keeps.bind (ask _) fun objective => ?_
  refine Edit.Keeps.bind (Edit.Keeps.mapM addVariableRecord _) fun created => ?_
  refine Edit.Keeps.bind (Edit.Keeps.forM (addConstraintRecord _) _) fun _ => ?_
  refine Edit.Keeps.bind (setObjective _) fun _ => ?_
  refine Edit.Keeps.bind (setDirection _) fun _ => ?_
  refine Edit.Keeps.bind (setTitle setName _) fun _ => ?_
  exact Edit.Keeps.bind (setTitle setObjectiveName _) fun _ => Edit.Keeps.pure created

theorem load (files : Files) (name : String) : Preserves (load files name) := by
  unfold Problem.load
  refine Edit.Keeps.bind (ask _) fun text => ?_
  exact Edit.Keeps.bind (ask _) fun d => appendDocument d

theorem restoreBounds (s : BoundSnapshot kind) : Preserves s.restore := by
  unfold BoundSnapshot.restore
  apply Edit.Keeps.forM
  exact fun e => setBound e.1 e.2

end Preserves

theorem Consistent.after_preserving (hp : p.Consistent) {x : Edit α} (hx : Preserves x) :
    KeepsConsistent x p := hx p fun _ => hp

theorem Consistent.after_release (hp : p.Consistent) (c : Constraint) :
    KeepsConsistent (ConstraintSnapshot.release c) p := by
  unfold ConstraintSnapshot.release
  refine hp.after_ask fun s _ => ?_
  unfold KeepsConsistent
  rw [Edit.final_bind_pure]
  exact hp.after_dispose c

end LinearProgram.Problem
