import LinearProgram.Document.Exchange
import LinearProgram.Proofs.Problem.Building

/-!
Edits that dispose nothing. Whatever comes of them, there are at least as many entities afterwards.
So when the slots suffice in the end, they sufficed all along.
-/

namespace LinearProgram.Problem

variable {α β : Type} {kind : EntityKind}

def Grows (x : Edit α) : Prop := ∀ kind n, Edit.Keeps (fun p => n ≤ (p.table kind).size) x

namespace Grows

theorem pure (a : α) : Grows (pure a : Edit α) := fun _ _ => Edit.Keeps.pure a

theorem bind {x : Edit α} {f : α → Edit β} (hx : Grows x) (hf : ∀ a, Grows (f a)) :
    Grows (x >>= f) := fun kind n => (hx kind n).bind fun a => hf a kind n

theorem forM {f : α → Edit PUnit} (hf : ∀ a, Grows (f a)) (l : List α) : Grows (l.forM f) :=
  fun kind n => Edit.Keeps.forM (fun a => hf a kind n) l

theorem mapM {f : α → Edit β} (hf : ∀ a, Grows (f a)) (l : List α) : Grows (l.mapM f) :=
  fun kind n => Edit.Keeps.mapM (fun a => hf a kind n) l

theorem modify {f : Problem → Problem} (hf : ∀ p kind, (f p).table kind = p.table kind) :
    Grows (modify f : Edit PUnit) :=
  fun kind _ => Edit.Keeps.modify fun p hn => (hf p kind).symm ▸ hn

theorem get : Grows (get : Edit Problem) := fun _ _ _ hn => hn

theorem ask (read : Problem → Outcome α) : Grows (ask read) := by
  intro kind n p hn
  unfold Edit.final Problem.ask
  cases read p <;> exact hn

theorem onTableau (edit : Tableau.Edit α) : Grows (onTableau edit) := by
  intro kind n p hn
  unfold Edit.final Problem.onTableau
  cases edit p.tableau <;> cases kind <;> exact hn

theorem insert (kind : EntityKind) (name : String) (index : Nat) :
    Grows (onTable kind (Table.insert name index)) := by
  intro other n p hn
  have hs := Table.size_insert name index (p.table kind)
  unfold Edit.final at hs ⊢
  unfold Problem.onTable
  cases hi : Table.insert name index (p.table kind) with
  | ok key t =>
    rw [hi] at hs
    cases kind <;> cases other <;> first | exact hn | exact Nat.le_trans hn hs
  | error defect t =>
    rw [hi] at hs
    cases kind <;> cases other <;> first | exact hn | exact Nat.le_trans hn hs

theorem invalidate : Grows invalidate := modify fun p kind => by cases kind <;> rfl

theorem applyType (i : Nat) (type : VarType) : Grows (applyType i type) := by
  cases type with
  | binary => exact bind (onTableau _) fun _ => onTableau _
  | integer => exact onTableau _
  | real => exact onTableau _

theorem addVariable (name : String) (type : VarType) : Grows (addVariable name type) :=
  bind (ask _) fun _ => bind (onTableau _) fun column => bind (insert .var name column) fun _ =>
    bind (applyType column type) fun _ => bind invalidate fun _ => bind get fun _ => pure _

theorem addConstraint (name : String) (l : Option Linear) (b : Bound) :
    Grows (addConstraint name l b) :=
  bind (ask _) fun _ => bind (ask _) fun _ => bind (ask _) fun _ => bind (onTableau _) fun row =>
    bind (insert .constraint name row) fun _ => bind invalidate fun _ => bind get fun _ => pure _

theorem setBound (h : Handle kind) (b : Bound) : Grows (setBound h b) := by
  refine bind (ask _) fun i => bind (ask _) fun _ => bind ?_ fun _ => invalidate
  cases kind <;> exact onTableau _

theorem setObjective (l : Option Linear) : Grows (setObjective l) :=
  bind (ask _) fun _ => bind (ask _) fun _ => bind (onTableau _) fun _ => invalidate

theorem setDirection (direction : Direction) : Grows (setDirection direction) :=
  bind (onTableau _) fun _ => invalidate

theorem setName (name : Option String) : Grows (setName name) :=
  bind (ask _) fun _ => modify fun p kind => by cases kind <;> rfl

theorem setObjectiveName (name : Option String) : Grows (setObjectiveName name) :=
  bind (ask _) fun _ => modify fun p kind => by cases kind <;> rfl

theorem setTitle {set : Option String → Edit Unit} (hs : ∀ name, Grows (set name))
    (name : Option String) : Grows (setTitle set name) := by
  unfold Problem.setTitle
  split
  · exact hs name
  · exact pure ()

theorem addVariableRecord (r : VariableRecord) : Grows (addVariableRecord r) := by
  unfold Problem.addVariableRecord
  refine bind (addVariable r.name r.type) fun v => ?_
  split
  · exact pure v
  · exact bind (setBound v r.bound) fun _ => pure v

theorem addConstraintRecord (named : List (String × Variable)) (r : ConstraintRecord) :
    Grows (addConstraintRecord named r) :=
  bind (addConstraint _ _ _) fun _ => pure ()

end Grows

theorem inCapacity_of_grows {x : Edit α} (hx : Grows x) {p : Problem}
    (h : (Edit.final x p).InCapacity) : p.InCapacity :=
  fun kind => Nat.le_trans (hx kind _ p (Nat.le_refl _)) (h kind)

theorem inCapacity_of_bind {x : Edit α} {f : α → Edit β} (hf : ∀ a, Grows (f a)) {p : Problem}
    (h : (Edit.final (x >>= f) p).InCapacity) : (Edit.final x p).InCapacity := by
  cases hx : x p with
  | ok a q =>
    rw [Edit.final_bind_ok hx] at h
    rw [Edit.final_ok hx]
    exact inCapacity_of_grows (hf a) h
  | error e q =>
    rw [Edit.final_bind_error hx] at h
    rwa [Edit.final_error hx]

section Room

variable {p : Problem}

theorem lt_capacity_of_withColumn {c : Column} (h : (p.withColumn c).InCapacity) :
    p.columns.size < Table.capacity := by
  have hs : (p.columns.entered c.name).size ≤ Table.capacity := h .var
  rw [Table.size_entered] at hs
  exact hs

theorem lt_capacity_of_withRow {r : Row} (h : (p.withRow r).InCapacity) :
    p.rows.size < Table.capacity := by
  have hs : (p.rows.entered r.name).size ≤ Table.capacity := h .constraint
  rw [Table.size_entered] at hs
  exact hs

end Room

end LinearProgram.Problem
