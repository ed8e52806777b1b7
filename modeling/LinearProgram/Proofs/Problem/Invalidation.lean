import LinearProgram.Proofs.Problem.Runs

/-!
What edits do to the outcome of the last solve. A change of the model makes it void, a disposal
takes out the values of what is disposed, and an edit that fails leaves it alone. None of it needs
consistency: it holds of any state in which the solution fits the status and the tables.
-/

namespace LinearProgram

theorem Table.unchanged_of_insert {name : String} {index : Nat} {defect : Defect} {t t' : Table}
    (h : insert name index t = .error defect t') : t' = t := by
  simp only [insert, Edit.bind_apply, Edit.get_apply] at h
  split at h
  · cases ho : t.occupy ⟨index, name⟩ with
    | ok r =>
      rw [ho] at h
      cases h
    | error e =>
      rw [ho] at h
      cases h
      rfl
  · cases h
    rfl

theorem Table.remove_cases {key : Key} {t : Table} {tenant : Tenant}
    (ht : t.tenant? key = some tenant) :
    (∃ defect, remove key t = .error defect t) ∨ ∃ t', tenant.index < t.size ∧
      t'.size = t.size - 1 ∧ remove key t = .ok (some tenant.index) t' := by
  simp only [remove, Edit.bind_apply, Edit.get_apply, ht]
  split
  · rename_i ho
    have hlt := (List.getElem?_eq_some_iff.mp ho).1
    cases reindex (t.slots.set key.slot.toNat ⟨key.generation + 1, none⟩)
      (t.order.eraseIdx tenant.index) tenant.index with
    | ok slots =>
      exact .inr ⟨⟨slots, _, t.order.eraseIdx tenant.index, _⟩, hlt,
        List.length_eraseIdx_of_lt hlt, rfl⟩
    | error defect => exact .inl ⟨_, rfl⟩
  · exact .inl ⟨_, rfl⟩

namespace Problem

variable {α β : Type} {kind : EntityKind} {p q r : Problem}

structure Fitting (p : Problem) : Prop where
  solved : p.solution.isSome = p.status.hasSolution
  fits : ∀ s ∈ p.solution, s.Fits p.columns.size p.rows.size

structure SameOutcome (p q : Problem) : Prop where
  status : q.status = p.status
  solution : q.solution = p.solution
  table : ∀ kind, q.table kind = p.table kind

namespace SameOutcome

theorem refl (p : Problem) : SameOutcome p p := ⟨rfl, rfl, fun _ => rfl⟩

theorem trans (h : SameOutcome p q) (h' : SameOutcome q r) : SameOutcome p r where
  status := h'.status.trans h.status
  solution := h'.solution.trans h.solution
  table kind := (h'.table kind).trans (h.table kind)

theorem fitting (h : SameOutcome p q) (hp : p.Fitting) : q.Fitting where
  solved := by rw [h.solution, h.status, hp.solved]
  fits := by
    have hcolumns : q.columns = p.columns := h.table .var
    have hrows : q.rows = p.rows := h.table .constraint
    rw [h.solution, hcolumns, hrows]
    exact hp.fits

theorem ask (read : Problem → Outcome α) (p : Problem) :
    SameOutcome p (Edit.final (ask read) p) := by
  unfold Edit.final Problem.ask
  cases read p <;> exact refl p

theorem onTableau (edit : Tableau.Edit α) (p : Problem) :
    SameOutcome p (Edit.final (onTableau edit) p) := by
  unfold Edit.final Problem.onTableau
  cases edit p.tableau <;> exact ⟨rfl, rfl, fun kind => by cases kind <;> rfl⟩

theorem bind {x : Edit α} {f : α → Edit β} (hx : SameOutcome p (Edit.final x p))
    (hf : ∀ a q, SameOutcome q (Edit.final (f a) q)) :
    SameOutcome p (Edit.final (x >>= f) p) := by
  cases h : x p with
  | ok a q =>
    rw [Edit.final_ok h] at hx
    rw [Edit.final_bind_ok h]
    exact hx.trans (hf a q)
  | error e q =>
    rw [Edit.final_error h] at hx
    rwa [Edit.final_bind_error h]

theorem applyType (column : Nat) (type : VarType) (p : Problem) :
    SameOutcome p (Edit.final (applyType column type) p) := by
  cases type with
  | binary => exact bind (onTableau _ p) fun _ => onTableau _
  | integer => exact onTableau _ p
  | real => exact onTableau _ p

theorem setBoundAt (kind : EntityKind) (i : Nat) (b : Bound) (p : Problem) :
    SameOutcome p (Edit.final (setBoundAt kind i b) p) := by
  cases kind <;> exact onTableau _ p

theorem deleteAt (kind : EntityKind) (i : Nat) (p : Problem) :
    SameOutcome p (Edit.final (deleteAt kind i) p) := by
  cases kind <;> exact onTableau _ p

theorem setName (name : Option String) (p : Problem) :
    SameOutcome p (Edit.final (setName name) p) :=
  bind (ask _ p) fun _ _ => ⟨rfl, rfl, fun kind => by cases kind <;> rfl⟩

theorem setObjectiveName (name : Option String) (p : Problem) :
    SameOutcome p (Edit.final (setObjectiveName name) p) :=
  bind (ask _ p) fun _ _ => ⟨rfl, rfl, fun kind => by cases kind <;> rfl⟩

theorem setTitle {set : Option String → Edit Unit}
    (hs : ∀ name p, SameOutcome p (Edit.final (set name) p)) (name : Option String) (p : Problem) :
    SameOutcome p (Edit.final (setTitle set name) p) := by
  unfold Problem.setTitle
  split
  · exact hs name p
  · exact refl p

end SameOutcome

def Voids (x : Edit α) (p : Problem) : Prop :=
  match x p with
  | .ok _ q => q.status = .unknown ∧ q.solution = none
  | .error _ q => SameOutcome p q

namespace Voids

theorem bind {x : Edit α} {f : α → Edit β} (hx : SameOutcome p (Edit.final x p))
    (hf : ∀ a q, x p = .ok a q → Voids (f a) q) : Voids (x >>= f) p := by
  unfold Voids
  cases h : x p with
  | ok a q =>
    rw [Edit.final_ok h] at hx
    have hq := hf a q h
    unfold Voids at hq
    cases hr : f a q with
    | ok b r =>
      rw [hr] at hq
      simpa only [Edit.bind_apply, h, hr] using hq
    | error e r =>
      rw [hr] at hq
      simpa only [Edit.bind_apply, h, hr] using hx.trans hq
  | error e q =>
    rw [Edit.final_error h] at hx
    simpa only [Edit.bind_apply, h] using hx

theorem ask {read : Problem → Outcome α} {f : α → Edit β} (hf : ∀ a, Voids (f a) p) :
    Voids (Problem.ask read >>= f) p := by
  refine bind (SameOutcome.ask read p) fun a q ha => ?_
  unfold Problem.ask at ha
  cases hr : read p with
  | ok b =>
    rw [hr] at ha
    cases ha
    exact hf a
  | error e =>
    rw [hr] at ha
    cases ha

theorem invalidate (p : Problem) : Voids invalidate p := ⟨rfl, rfl⟩

theorem insert {name : String} {index : Nat} {f : Key → Edit β}
    (hf : ∀ key t, ∃ b q, f key (p.withTable kind t) = .ok b q ∧ q.status = .unknown ∧
      q.solution = none) : Voids (onTable kind (Table.insert name index) >>= f) p := by
  unfold Voids
  cases h : Table.insert name index (p.table kind) with
  | ok key t =>
    obtain ⟨b, q, hq, hvoid⟩ := hf key t
    simpa only [Edit.bind_apply, onTable, h, hq] using hvoid
  | error defect t =>
    obtain rfl := Table.unchanged_of_insert h
    simp only [Edit.bind_apply, onTable, h]
    cases kind <;> exact SameOutcome.refl p

theorem addVariable (name : String) (type : VarType) (p : Problem) :
    Voids (addVariable name type) p := by
  refine ask fun _ => bind (SameOutcome.onTableau _ p) fun column q hq => insert fun key t => ?_
  obtain ⟨rfl, rfl⟩ := EStateM.Result.ok.inj hq
  let r : Problem := { p with
    columns := t, tableau.columns := p.tableau.columns ++ [Column.fresh name] }
  -- the new column is in range, so its type can be set
  have hlt : p.tableau.columns.length < r.tableau.columns.length := by simp [r]
  have htype : applyType p.tableau.columns.length type r = .ok () _ := applyType_eq hlt type
  exact ⟨_, _, by simp only [withTable, Edit.bind_apply, r, htype]; rfl, rfl, rfl⟩

theorem addConstraint (name : String) (l : Option Linear) (b : Bound) (p : Problem) :
    Voids (addConstraint name l b) p :=
  ask fun _ => ask fun _ => ask fun _ => bind (SameOutcome.onTableau _ p) fun _ _ _ =>
    insert fun _ _ => ⟨_, _, rfl, rfl, rfl⟩

theorem setVariableType (v : Variable) (type : VarType) (p : Problem) :
    Voids (setVariableType v type) p :=
  ask fun _ => bind (SameOutcome.applyType _ type p) fun _ q _ => invalidate q

theorem setBound (h : Handle kind) (b : Bound) (p : Problem) : Voids (setBound h b) p :=
  ask fun _ => ask fun _ => bind (SameOutcome.setBoundAt kind _ b p) fun _ q _ => invalidate q

theorem setLinear (c : Constraint) (l : Option Linear) (p : Problem) : Voids (setLinear c l) p :=
  ask fun _ => ask fun _ => bind (SameOutcome.onTableau _ p) fun _ q _ => invalidate q

theorem setObjective (l : Option Linear) (p : Problem) : Voids (setObjective l) p :=
  ask fun _ => ask fun _ => bind (SameOutcome.onTableau _ p) fun _ q _ => invalidate q

theorem setDirection (direction : Direction) (p : Problem) : Voids (setDirection direction) p :=
  bind (SameOutcome.onTableau _ p) fun _ q _ => invalidate q

end Voids

section Disposing

structure Loses (kind : EntityKind) (i : Nat) (p q : Problem) : Prop where
  status : q.status = p.status
  solution : q.solution = p.solution.map (·.without kind i)
  inRange : i < (p.table kind).size
  size : (q.table kind).size = (p.table kind).size - 1
  others : ∀ other ≠ kind, q.table other = p.table other

theorem Loses.fitting {i : Nat} (h : Loses kind i p q) (hp : p.Fitting) : q.Fitting where
  solved := by rw [h.solution, h.status, Option.isSome_map, hp.solved]
  fits := by
    have hi := h.inRange
    have hsize := h.size
    rw [h.solution]
    intro s hs
    obtain ⟨before, hb, rfl⟩ := Option.map_eq_some_iff.mp hs
    have hf := hp.fits before hb
    cases kind with
    | var =>
      have hcolumns : q.columns.size = p.columns.size - 1 := hsize
      have hrows : q.rows = p.rows := h.others .constraint nofun
      rw [hcolumns, hrows]
      exact hf.withoutColumn hi
    | constraint =>
      have hcolumns : q.columns = p.columns := h.others .var nofun
      have hrows : q.rows.size = p.rows.size - 1 := hsize
      rw [hcolumns, hrows]
      exact hf.withoutRow hi

theorem SameOutcome.loses {i : Nat} (h : SameOutcome p q) (h' : Loses kind i q r) :
    Loses kind i p r where
  status := h'.status.trans h.status
  solution := h'.solution.trans (by rw [h.solution])
  inRange := h.table kind ▸ h'.inRange
  size := h.table kind ▸ h'.size
  others other ho := (h'.others other ho).trans (h.table other)

theorem loses_of_remove {key : Key} {tenant : Tenant}
    (ht : (p.table kind).tenant? key = some tenant) :
    let x : Edit Unit := onTable kind (Table.remove key) >>= fun _ =>
      modify fun p => { p with solution := p.solution.map (·.without kind tenant.index) }
    SameOutcome p (Edit.final x p) ∨ Loses kind tenant.index p (Edit.final x p) := by
  obtain ⟨defect, hr⟩ | ⟨t', hlt, hsize, hr⟩ := Table.remove_cases ht
  · left
    simp only [Edit.final, Edit.bind_apply, onTable, hr]
    cases kind <;> exact .refl p
  · right
    simp only [Edit.final, Edit.bind_apply, onTable, hr, Edit.modify_apply]
    constructor
    · cases kind <;> rfl
    · cases kind <;> rfl
    · exact hlt
    · cases kind <;> exact hsize
    · intro other ho
      cases kind <;> cases other <;> first | rfl | exact absurd rfl ho

theorem final_dispose_cases (h : Handle kind) (p : Problem) :
    SameOutcome p (Edit.final (dispose h) p) ∨ ∃ i, Loses kind i p (Edit.final (dispose h) p) := by
  cases hown : p.checkOwner h with
  | error e =>
    rw [dispose, Edit.final_error (ask_refused hown _)]
    exact .inl (.refl p)
  | ok u =>
    rw [dispose, Edit.final_bind_ok (ask_ok hown), Edit.final_bind_ok (Edit.get_apply p)]
    cases ht : (p.table kind).tenant? h.key with
    | none =>
      rw [Table.indexOf?, ht]
      exact .inl (.refl p)
    | some tenant =>
      have hdelete := SameOutcome.deleteAt kind tenant.index p
      simp only [Table.indexOf?, ht, Option.map_some]
      cases hd : deleteAt kind tenant.index p with
      | error e q =>
        rw [Edit.final_error hd] at hdelete
        rw [Edit.final_bind_error hd]
        exact .inl hdelete
      | ok a q =>
        rw [Edit.final_ok hd] at hdelete
        rw [Edit.final_bind_ok hd]
        rw [← hdelete.table kind] at ht
        obtain hs | hl := loses_of_remove ht
        · exact .inl (hdelete.trans hs)
        · exact .inr ⟨_, hdelete.loses hl⟩

end Disposing

end Problem

end LinearProgram
