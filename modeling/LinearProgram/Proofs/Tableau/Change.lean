import LinearProgram.Tableau
import LinearProgram.Proofs.Edit
import Mathlib.Data.List.Basic
import Mathlib.Data.List.InsertIdx

namespace LinearProgram

namespace Entry

def moved (i : Nat) (e : Entry) : Entry :=
  if i < e.column then { e with column := e.column - 1 } else e

theorem moved_column (i : Nat) (e : Entry) :
    (e.moved i).column = if i < e.column then e.column - 1 else e.column := by
  unfold moved
  split <;> rfl

@[simp]
theorem moved_coefficient (i : Nat) (e : Entry) : (e.moved i).coefficient = e.coefficient := by
  unfold moved
  split <;> rfl

theorem without_eq (i : Nat) (entries : List Entry) :
    without i entries = (entries.filter (·.column ≠ i)).map (moved i) := rfl

end Entry

namespace Column

def typed (c : Column) : VarType → Column
  | .binary => { c with kind := .integer, bound := .binary }
  | .integer => { c with kind := .integer }
  | .real => { c with kind := .continuous }

@[simp]
theorem typed_name (c : Column) (type : VarType) : (c.typed type).name = c.name := by
  cases type <;> rfl

@[simp]
theorem typed_objective (c : Column) (type : VarType) : (c.typed type).objective = c.objective := by
  cases type <;> rfl

theorem typed_bound (c : Column) (type : VarType) :
    (c.typed type).bound = if type = .binary then .binary else c.bound := by
  cases type <;> rfl

end Column

namespace Tableau

def names (t : Tableau) : EntityKind → List String
  | .var => t.columns.map (·.name)
  | .constraint => t.rows.map (·.name)

def bounds (t : Tableau) : EntityKind → List Bound
  | .var => t.columns.map (·.bound)
  | .constraint => t.rows.map (·.bound)

theorem length_bounds (t : Tableau) (kind : EntityKind) :
    (t.bounds kind).length = (t.names kind).length := by
  cases kind <;> simp [names, bounds]

def recolumned (t : Tableau) (i : Nat) (f : Column → Column) : Tableau :=
  { t with columns := t.columns.modify i f }

def rerowed (t : Tableau) (i : Nat) (f : Row → Row) : Tableau :=
  { t with rows := t.rows.modify i f }

def rebounded (t : Tableau) (b : Bound) : EntityKind → Nat → Tableau
  | .var, i => t.recolumned i fun c => { c with bound := b }
  | .constraint, i => t.rerowed i fun r => { r with bound := b }

def priced (t : Tableau) (xs : List Float) : Tableau :=
  { t with columns := withObjective t.columns xs }

def without (t : Tableau) : EntityKind → Nat → Tableau
  | .var, i => t.withoutColumn i
  | .constraint, i => t.withoutRow i

variable {t : Tableau} {i : Nat}

theorem modifyColumn_eq (hi : i < t.columns.length) (f : Column → Column) :
    modifyColumn i f t = .ok () (t.recolumned i f) := by
  simp only [modifyColumn, Edit.bind_apply, Edit.get_apply, List.getElem?_eq_getElem hi,
    recolumned, List.modify_eq_set_getElem?]
  rfl

theorem modifyRow_eq (hi : i < t.rows.length) (f : Row → Row) :
    modifyRow i f t = .ok () (t.rerowed i f) := by
  simp only [modifyRow, Edit.bind_apply, Edit.get_apply, List.getElem?_eq_getElem hi,
    rerowed, List.modify_eq_set_getElem?]
  rfl

theorem deleteColumns_singleton (hi : i < t.columns.length) :
    deleteColumns [i] t = .ok () (t.withoutColumn i) := by
  simp only [deleteColumns, descending, List.foldr, insertDescending, List.forM, deleteColumn,
    Edit.bind_apply, Edit.get_apply, hi, ↓reduceIte, Edit.set_apply]
  rfl

theorem deleteRows_singleton (hi : i < t.rows.length) :
    deleteRows [i] t = .ok () (t.withoutRow i) := by
  simp only [deleteRows, descending, List.foldr, insertDescending, List.forM, deleteRow,
    Edit.bind_apply, Edit.get_apply, hi, ↓reduceIte, Edit.set_apply]
  rfl

theorem mem_modify {α : Type} {l : List α} {f : α → α} {a : α} (h : a ∈ l.modify i f) :
    a ∈ l ∨ ∃ b ∈ l, a = f b := by
  obtain ⟨n, hn⟩ := List.mem_iff_getElem?.mp h
  rw [List.getElem?_modify] at hn
  obtain ⟨b, hb, rfl⟩ := Option.map_eq_some_iff.mp hn
  have hm := List.mem_of_getElem? hb
  by_cases hi : i = n
  · exact .inr ⟨b, hm, by simp [hi]⟩
  · exact .inl (by simpa [hi] using hm)

theorem map_modify {α β : Type} {l : List α} {f : α → α} {g : α → β} (h : ∀ a, g (f a) = g a) :
    (l.modify i f).map g = l.map g := by
  apply List.ext_getElem?
  intro n
  rw [List.getElem?_map, List.getElem?_map, List.getElem?_modify]
  cases l[n]? with
  | none => rfl
  | some a => by_cases hi : i = n <;> simp [hi, h]

theorem names_recolumned {f : Column → Column} (hf : ∀ c, (f c).name = c.name)
    (kind : EntityKind) : (t.recolumned i f).names kind = t.names kind := by
  cases kind with
  | var => exact map_modify hf
  | constraint => rfl

theorem names_rerowed {f : Row → Row} (hf : ∀ r, (f r).name = r.name) (kind : EntityKind) :
    (t.rerowed i f).names kind = t.names kind := by
  cases kind with
  | var => rfl
  | constraint => exact map_modify hf

theorem names_rebounded (b : Bound) (kind : EntityKind) (other : EntityKind) :
    (t.rebounded b kind i).names other = t.names other := by
  cases kind with
  | var => exact names_recolumned (f := fun c => { c with bound := b }) (fun _ => rfl) other
  | constraint => exact names_rerowed (f := fun r => { r with bound := b }) (fun _ => rfl) other

theorem names_without (kind : EntityKind) (i : Nat) :
    (t.without kind i).names kind = (t.names kind).eraseIdx i := by
  cases kind with
  | var => exact (List.eraseIdx_map _ _ _).symm
  | constraint => exact (List.eraseIdx_map _ _ _).symm

theorem names_without_of_ne {kind other : EntityKind} (h : other ≠ kind) (i : Nat) :
    (t.without kind i).names other = t.names other := by
  cases kind <;> cases other <;> first | exact absurd rfl h | simp [names, without, withoutColumn,
    withoutRow, Row.withoutColumn]

theorem names_withObjective (columns : List Column) (xs : List Float) :
    (withObjective columns xs).map (·.name) = columns.map (·.name) := by
  induction columns generalizing xs with
  | nil => simp [withObjective]
  | cons c columns ih => cases xs <;> simp [withObjective, ih]

theorem names_priced (xs : List Float) (kind : EntityKind) :
    (t.priced xs).names kind = t.names kind := by
  cases kind with
  | var => exact names_withObjective t.columns xs
  | constraint => rfl

theorem mem_withObjective {columns : List Column} {xs : List Float} {c : Column}
    (h : c ∈ withObjective columns xs) :
    ∃ d ∈ columns, c = d ∨ ∃ x ∈ xs, c = { d with objective := x } := by
  induction columns generalizing xs with
  | nil => simp [withObjective] at h
  | cons d columns ih =>
    cases xs with
    | nil => exact ⟨c, by simpa [withObjective] using h, .inl rfl⟩
    | cons x xs =>
      simp only [withObjective, List.mem_cons] at h
      rcases h with rfl | h
      · exact ⟨d, by simp, .inr ⟨x, by simp, rfl⟩⟩
      · obtain ⟨e, he, hc⟩ := ih h
        refine ⟨e, List.mem_cons_of_mem _ he, hc.imp_right ?_⟩
        rintro ⟨y, hy, rfl⟩
        exact ⟨y, List.mem_cons_of_mem _ hy, rfl⟩

end Tableau

end LinearProgram
