import LinearProgram.Problem.Building
import LinearProgram.Problem.Values
import LinearProgram.Proofs.Outcome
import LinearProgram.Proofs.Table.Change
import LinearProgram.Proofs.Tableau.Sound

namespace LinearProgram

structure Solution.Fits (s : Solution) (columns rows : Nat) : Prop where
  values : s.columns.length = columns
  columnDuals : ∀ xs ∈ s.columnDuals, xs.length = columns
  rowDuals : ∀ xs ∈ s.rowDuals, xs.length = rows

def Column.type (c : Column) : VarType :=
  match c.kind with
  | .continuous => .real
  | .integer => if c.bound == .binary then .binary else .integer

namespace Problem

structure Consistent (p : Problem) : Prop where
  lists : ∀ kind, (p.table kind).Lists (p.tableau.names kind)
  sound : p.tableau.Sound
  title : checkTitle p.name = .ok ()
  objectiveTitle : checkTitle p.objectiveName = .ok ()
  solved : p.solution.isSome = p.status.hasSolution
  fits : ∀ s ∈ p.solution, s.Fits p.tableau.columns.length p.tableau.rows.length

def InCapacity (p : Problem) : Prop := ∀ kind, (p.table kind).size ≤ Table.capacity

instance (p : Problem) : Decidable p.InCapacity :=
  decidable_of_iff (p.columns.size ≤ Table.capacity ∧ p.rows.size ≤ Table.capacity)
    ⟨fun h kind => by cases kind; exacts [h.1, h.2], fun h => ⟨h .var, h .constraint⟩⟩

variable {p : Problem} {kind : EntityKind} {h : Handle kind} {i : Nat}

theorem handles_getElem? : (p.handles kind)[i]? = some h ↔
    h.problem = p.id ∧ (p.table kind).order[i]? = some h.key := by
  obtain ⟨problem, key⟩ := h
  simp only [handles, List.getElem?_map, Option.map_eq_some_iff, Handle.mk.injEq]
  constructor
  · rintro ⟨k, hk, rfl, rfl⟩
    exact ⟨rfl, hk⟩
  · rintro ⟨rfl, hk⟩
    exact ⟨key, hk, rfl, rfl⟩

theorem problem_of_mem (hh : h ∈ p.handles kind) : h.problem = p.id := by
  obtain ⟨i, hi⟩ := List.mem_iff_getElem?.mp hh
  exact (handles_getElem?.mp hi).1

theorem length_handles (p : Problem) (kind : EntityKind) :
    (p.handles kind).length = (p.table kind).size := by
  simp [handles, Table.size]

theorem indexOf_eq : p.indexOf h =
    if h.problem = p.id then
      match (p.table kind).indexOf? h.key with
      | some i => .ok i
      | none => .error (.refused .disposed)
    else .error (.refused (.invalid (.foreignHandle kind))) := by
  unfold indexOf checkOwner
  by_cases ho : h.problem = p.id
  · rw [if_pos ho, if_pos ho]
    rfl
  · rw [if_neg ho, if_neg ho]
    rfl

theorem column_eq {c : Column} (hc : p.tableau.columns[i]? = some c) :
    p.tableau.column i = .ok c := by
  simp only [Tableau.column, hc]

theorem row_eq {r : Row} (hr : p.tableau.rows[i]? = some r) : p.tableau.row i = .ok r := by
  simp only [Tableau.row, hr]

theorem nameAt_eq {name : String} (hn : (p.tableau.names kind)[i]? = some name) :
    p.nameAt kind i = .ok name := by
  cases kind with
  | var =>
    rw [Tableau.names, List.getElem?_map, Option.map_eq_some_iff] at hn
    obtain ⟨c, hc, rfl⟩ := hn
    rw [nameAt, column_eq hc]
    rfl
  | constraint =>
    rw [Tableau.names, List.getElem?_map, Option.map_eq_some_iff] at hn
    obtain ⟨r, hr, rfl⟩ := hn
    rw [nameAt, row_eq hr]
    rfl

theorem boundAt_eq {b : Bound} (hb : (p.tableau.bounds kind)[i]? = some b) :
    p.boundAt kind i = .ok b := by
  cases kind with
  | var =>
    rw [Tableau.bounds, List.getElem?_map, Option.map_eq_some_iff] at hb
    obtain ⟨c, hc, rfl⟩ := hb
    rw [boundAt, column_eq hc]
    rfl
  | constraint =>
    rw [Tableau.bounds, List.getElem?_map, Option.map_eq_some_iff] at hb
    obtain ⟨r, hr, rfl⟩ := hb
    rw [boundAt, row_eq hr]
    rfl

theorem bound_eq (hi : p.indexOf h = .ok i) {b : Bound}
    (hb : (p.tableau.bounds kind)[i]? = some b) : p.bound h = .ok b := by
  simp only [bound, hi, Outcome.bind_ok, boundAt_eq hb]

theorem variableType_eq {v : Variable} (hi : p.indexOf v = .ok i) {c : Column}
    (hc : p.tableau.columns[i]? = some c) : p.variableType v = .ok c.type := by
  simp only [variableType, hi, column_eq hc, Outcome.bind_ok, Outcome.ofDefect]
  rfl

theorem entriesOf_eq {c : Constraint} (hi : p.indexOf c = .ok i) {r : Row}
    (hr : p.tableau.rows[i]? = some r) : p.entriesOf c = .ok r.entries := by
  simp only [entriesOf, hi, row_eq hr, Outcome.bind_ok, Outcome.ofDefect]
  rfl

namespace Consistent

variable (hp : p.Consistent)
include hp

theorem indexOf_eq_ok_iff : p.indexOf h = .ok i ↔ (p.handles kind)[i]? = some h := by
  rw [handles_getElem?, ← (hp.lists kind).indexOf?_eq_some_iff, indexOf_eq]
  by_cases ho : h.problem = p.id
  · rw [if_pos ho]
    cases hi : (p.table kind).indexOf? h.key <;> simp [ho]
  · rw [if_neg ho]
    simp [ho]

theorem tenant_of_mem (hm : h ∈ p.handles kind) :
    ∃ tenant, (p.table kind).tenant? h.key = some tenant := by
  obtain ⟨i, hi⟩ := List.mem_iff_getElem?.mp hm
  obtain ⟨name, -, ht⟩ := (hp.lists kind).resolves i h.key (handles_getElem?.mp hi).2
  exact ⟨_, ht⟩

theorem mem_of_tenant (ho : h.problem = p.id) {tenant : Tenant}
    (ht : (p.table kind).tenant? h.key = some tenant) : h ∈ p.handles kind :=
  List.mem_of_getElem? (handles_getElem?.mpr ⟨ho, (hp.lists kind).order_of_tenant ht⟩)

theorem handles_nodup (kind : EntityKind) : (p.handles kind).Nodup := by
  apply (hp.lists kind).order_nodup.map
  intro a b hab
  exact (Handle.mk.inj hab).2

theorem length_names (kind : EntityKind) :
    (p.tableau.names kind).length = (p.handles kind).length := by
  rw [length_handles]
  exact (hp.lists kind).order_length.symm

theorem size_columns : p.columns.size = p.tableau.columns.length :=
  (hp.lists .var).order_length.trans (List.length_map _)

theorem size_rows : p.rows.size = p.tableau.rows.length :=
  (hp.lists .constraint).order_length.trans (List.length_map _)

theorem length_vars : p.vars.length = p.tableau.columns.length :=
  (length_handles p .var).trans hp.size_columns

theorem index_lt (hi : p.indexOf h = .ok i) : i < (p.tableau.names kind).length := by
  rw [hp.length_names]
  exact (List.getElem?_eq_some_iff.mp (hp.indexOf_eq_ok_iff.mp hi)).1

theorem nameOf_eq (hi : p.indexOf h = .ok i) {name : String}
    (hn : (p.tableau.names kind)[i]? = some name) : p.nameOf h = .ok name := by
  have hs : (p.table kind).nameOf? h.key = some name := by
    have ho := (handles_getElem?.mp (hp.indexOf_eq_ok_iff.mp hi)).2
    rw [(hp.lists kind).nameOf?_eq ho, hn]
  simp only [nameOf, hi, nameAt_eq hn, hs, Outcome.bind_ok, ↓reduceIte, Outcome.pure_eq_ok]

end Consistent

end Problem

end LinearProgram
