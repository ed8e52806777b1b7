import LinearProgram.Proofs.Problem.Checks

namespace LinearProgram

namespace Solution.Fits

variable {s : Solution} {columns rows i : Nat}

theorem withoutColumn (h : s.Fits columns rows) (hi : i < columns) :
    (s.withoutColumn i).Fits (columns - 1) rows where
  values := by
    rw [Solution.withoutColumn, List.length_eraseIdx_of_lt (h.values.symm ▸ hi), h.values]
  columnDuals := by
    intro xs hxs
    obtain ⟨ys, hys, rfl⟩ := Option.map_eq_some_iff.mp hxs
    have hl := h.columnDuals ys hys
    rw [List.length_eraseIdx_of_lt (hl.symm ▸ hi), hl]
  rowDuals := h.rowDuals

theorem withoutRow (h : s.Fits columns rows) (hi : i < rows) :
    (s.withoutRow i).Fits columns (rows - 1) where
  values := h.values
  columnDuals := h.columnDuals
  rowDuals := by
    intro xs hxs
    obtain ⟨ys, hys, rfl⟩ := Option.map_eq_some_iff.mp hxs
    have hl := h.rowDuals ys hys
    rw [List.length_eraseIdx_of_lt (hl.symm ▸ hi), hl]

end Solution.Fits

namespace Problem

variable {kind : EntityKind} {p : Problem}

def revised (p : Problem) (t : Tableau) : Problem :=
  { p with tableau := t, status := .unknown, solution := none }

def nextHandle (p : Problem) (kind : EntityKind) : Handle kind := ⟨p.id, (p.table kind).nextKey⟩

def withColumn (p : Problem) (c : Column) : Problem :=
  { p with columns := p.columns.entered c.name }.revised
    { p.tableau with columns := p.tableau.columns ++ [c] }

def withRow (p : Problem) (r : Row) : Problem :=
  { p with rows := p.rows.entered r.name }.revised { p.tableau with rows := p.tableau.rows ++ [r] }

def without (p : Problem) (h : Handle kind) (tenant : Tenant) : Problem :=
  { p.withTable kind ((p.table kind).vacate h.key tenant) with
    tableau := p.tableau.without kind tenant.index
    solution := p.solution.map (·.without kind tenant.index) }

theorem vars_withColumn (p : Problem) (c : Column) :
    (p.withColumn c).vars = p.vars ++ [p.nextHandle .var] := List.map_append

namespace Consistent

variable (hp : p.Consistent)
include hp

theorem revised {t : Tableau} (hn : ∀ kind, t.names kind = p.tableau.names kind) (ht : t.Sound) :
    (p.revised t).Consistent where
  lists := fun kind => by
    have h := hp.lists kind
    rw [← hn kind] at h
    cases kind <;> exact h
  sound := ht
  title := hp.title
  objectiveTitle := hp.objectiveTitle
  solved := rfl
  fits := fun s hs => nomatch hs

theorem withColumn (hroom : p.columns.size < Table.capacity) {c : Column}
    (hn : Nameable (p.tableau.names .var) c.name) (hb : c.bound.hasNaN = false)
    (ho : c.objective.isNaN = false) : (p.withColumn c).Consistent where
  lists := fun kind => by
    cases kind with
    | var =>
      have h := (hp.lists .var).entered hroom hn.nonempty hn.unused
      simpa [Problem.withColumn, Problem.revised, table, Tableau.names] using h
    | constraint => exact hp.lists .constraint
  sound := hp.sound.addColumn ⟨hn.short, hb, ho⟩
  title := hp.title
  objectiveTitle := hp.objectiveTitle
  solved := rfl
  fits := fun s hs => nomatch hs

theorem withRow (hroom : p.rows.size < Table.capacity) {r : Row}
    (hn : Nameable (p.tableau.names .constraint) r.name) (hb : r.bound.hasNaN = false)
    (he : Entry.Proper p.tableau.columns.length r.entries) : (p.withRow r).Consistent where
  lists := fun kind => by
    cases kind with
    | var => exact hp.lists .var
    | constraint =>
      have h := (hp.lists .constraint).entered hroom hn.nonempty hn.unused
      simpa [Problem.withRow, Problem.revised, table, Tableau.names] using h
  sound := hp.sound.addRow ⟨hn.short, hb, he⟩
  title := hp.title
  objectiveTitle := hp.objectiveTitle
  solved := rfl
  fits := fun s hs => nomatch hs

theorem tenant_lt {h : Handle kind} {tenant : Tenant}
    (ht : (p.table kind).tenant? h.key = some tenant) :
    tenant.index < (p.tableau.names kind).length :=
  (List.getElem?_eq_some_iff.mp ((hp.lists kind).name_of_tenant ht)).1

theorem without {h : Handle kind} {tenant : Tenant}
    (ht : (p.table kind).tenant? h.key = some tenant) : (p.without h tenant).Consistent where
  lists := fun other => by
    have hv := (hp.lists kind).vacate ht
    rw [← Tableau.names_without] at hv
    by_cases ho : other = kind
    · subst ho
      cases other <;> exact hv
    · have hl := hp.lists other
      rw [← Tableau.names_without_of_ne ho tenant.index] at hl
      cases kind <;> cases other <;> first | exact hl | exact absurd rfl ho
  sound := hp.sound.without kind (hp.tenant_lt ht)
  title := by
    cases kind <;> exact hp.title
  objectiveTitle := by
    cases kind <;> exact hp.objectiveTitle
  solved := by
    have hs : (p.solution.map (·.without kind tenant.index)).isSome = p.status.hasSolution := by
      rw [Option.isSome_map, hp.solved]
    cases kind <;> exact hs
  fits := by
    have hi := hp.tenant_lt ht
    intro s hs
    obtain ⟨before, hb, rfl⟩ := Option.map_eq_some_iff.mp hs
    have hf := hp.fits before hb
    cases kind with
    | var =>
      rw [Tableau.names, List.length_map] at hi
      have hw := hf.withoutColumn hi
      rw [← List.length_eraseIdx_of_lt hi] at hw
      simpa [Problem.without, Solution.without, Tableau.without, Tableau.withoutColumn] using hw
    | constraint =>
      rw [Tableau.names, List.length_map] at hi
      have hw := hf.withoutRow hi
      rw [← List.length_eraseIdx_of_lt hi] at hw
      exact hw

end Consistent

end Problem

end LinearProgram
