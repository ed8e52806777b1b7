import LinearProgram.Proofs.Document.Checking
import LinearProgram.Proofs.Problem.Growth

namespace LinearProgram

def VariableRecord.column (r : VariableRecord) : Column :=
  if r.type = .binary then (Column.fresh r.name).typed .binary
  else { (Column.fresh r.name).typed r.type with bound := r.bound }

namespace VariableRecord

@[simp]
theorem column_name (r : VariableRecord) : r.column.name = r.name := by
  unfold column
  split <;> simp [Column.fresh]

@[simp]
theorem column_objective (r : VariableRecord) : r.column.objective = 0 := by
  unfold column
  split <;> simp [Column.fresh]

theorem Fits.column_bound {taken : List String} {r : VariableRecord} (h : r.Fits taken) :
    r.column.bound.hasNaN = false := by
  unfold column
  split
  · rfl
  · rename_i hb
    exact h.bound hb

end VariableRecord

namespace Problem

def withColumns (p : Problem) (cs : List Column) : Problem := cs.foldl withColumn p

def withRows (p : Problem) (rs : List Row) : Problem := rs.foldl withRow p

variable {p : Problem}

theorem tableau_withColumns (p : Problem) (cs : List Column) :
    (p.withColumns cs).tableau = { p.tableau with columns := p.tableau.columns ++ cs } := by
  induction cs generalizing p with
  | nil => simp [withColumns]
  | cons c cs ih =>
    refine (ih (p.withColumn c)).trans ?_
    simp [withColumn, revised]

theorem tableau_withRows (p : Problem) (rs : List Row) :
    (p.withRows rs).tableau = { p.tableau with rows := p.tableau.rows ++ rs } := by
  induction rs generalizing p with
  | nil => simp [withRows]
  | cons r rs ih =>
    refine (ih (p.withRow r)).trans ?_
    simp [withRow, revised]

theorem rows_withColumns (p : Problem) (cs : List Column) : (p.withColumns cs).rows = p.rows := by
  induction cs generalizing p with
  | nil => rfl
  | cons c cs ih => exact ih (p.withColumn c)

theorem titles_withColumns (p : Problem) (cs : List Column) :
    (p.withColumns cs).name = p.name ∧ (p.withColumns cs).objectiveName = p.objectiveName := by
  induction cs generalizing p with
  | nil => exact ⟨rfl, rfl⟩
  | cons c cs ih => exact ih (p.withColumn c)

theorem titles_withRows (p : Problem) (rs : List Row) :
    (p.withRows rs).name = p.name ∧ (p.withRows rs).objectiveName = p.objectiveName := by
  induction rs generalizing p with
  | nil => exact ⟨rfl, rfl⟩
  | cons r rs ih => exact ih (p.withRow r)

theorem size_withColumn (p : Problem) (c : Column) :
    (p.withColumn c).columns.size = p.columns.size + 1 := Table.size_entered _ _

theorem size_withRow (p : Problem) (r : Row) : (p.withRow r).rows.size = p.rows.size + 1 :=
  Table.size_entered _ _

theorem Nameable.append {names : List String} {name other : String} (h : Nameable names name)
    (hne : name ≠ other) : Nameable (names ++ [other]) name :=
  ⟨h.nonempty, by simp [h.unused, hne], h.short⟩

namespace Consistent

variable (hp : p.Consistent)
include hp

theorem withColumn_column {r : VariableRecord} (hroom : p.columns.size < Table.capacity)
    (hr : r.Fits (p.tableau.names .var)) : (p.withColumn r.column).Consistent := by
  apply hp.withColumn hroom
  · rw [VariableRecord.column_name]
    exact hr.name
  · exact hr.column_bound
  · rw [VariableRecord.column_objective]
    exact Double.isNaN_zero

theorem addVariableRecord_eq {r : VariableRecord} (hroom : p.columns.size < Table.capacity)
    (hr : r.Fits (p.tableau.names .var)) :
    addVariableRecord r p = .ok (p.nextHandle .var) (p.withColumn r.column) := by
  have hadd := hp.addVariable_eq hr.name r.type
  by_cases hb : r.type = .binary
  · rw [hb] at hadd
    simp only [addVariableRecord, Edit.bind_apply, hb, ↓reduceIte, hadd, VariableRecord.column,
      Edit.pure_apply]
  · have hbound : ((Column.fresh r.name).typed r.type).bound.hasNaN = false := by
      rw [Column.typed_bound, if_neg hb]
      rfl
    have hname : ((Column.fresh r.name).typed r.type).name = r.name := Column.typed_name _ _
    have hprice : ((Column.fresh r.name).typed r.type).objective.isNaN = false := by
      rw [Column.typed_objective]
      exact Double.isNaN_zero
    have hn : Nameable (p.tableau.names .var) ((Column.fresh r.name).typed r.type).name :=
      hname.symm ▸ hr.name
    have hq := hp.withColumn hroom hn hbound hprice
    have hi := hp.indexOf_nextHandle hroom hn hbound hprice
    have hidx := hq.indexOf_eq_ok_iff_idxOf.mp hi
    have hset := hq.setBound_eq hidx.1 (hr.bound hb)
    rw [← hidx.2] at hset
    simp only [addVariableRecord, Edit.bind_apply, hadd, hb, ↓reduceIte, hset,
      VariableRecord.column]
    simp only [Problem.withColumn, Problem.revised, Tableau.rebounded, Tableau.recolumned,
      Tableau.modify_length_append, Edit.pure_apply]

omit hp in
theorem fits_after {r s : VariableRecord} (hs : s.Fits (p.tableau.names .var))
    (hne : s.name ≠ r.name) : s.Fits ((p.withColumn r.column).tableau.names .var) := by
  refine ⟨?_, hs.bound, hs.objective⟩
  have hn : (p.withColumn r.column).tableau.names .var = p.tableau.names .var ++ [r.name] := by
    simp [Problem.withColumn, Problem.revised, Tableau.names]
  rw [hn]
  exact hs.name.append hne

theorem addVariables_eq {records : List VariableRecord}
    (hroom : p.columns.size + records.length ≤ Table.capacity)
    (hf : ∀ r ∈ records, r.Fits (p.tableau.names .var)) (hd : (records.map (·.name)).Nodup) :
    ∃ created,
      records.mapM addVariableRecord p = .ok created (p.withColumns (records.map (·.column))) ∧
        (p.withColumns (records.map (·.column))).vars = p.vars ++ created ∧
          (p.withColumns (records.map (·.column))).Consistent := by
  induction records generalizing p with
  | nil => exact ⟨[], rfl, (List.append_nil _).symm, hp⟩
  | cons r records ih =>
    rw [List.forall_mem_cons] at hf
    rw [List.map_cons, List.nodup_cons, List.mem_map, not_exists] at hd
    rw [List.length_cons] at hroom
    have hlt : p.columns.size < Table.capacity := by omega
    have hnext : ∀ s ∈ records, s.Fits ((p.withColumn r.column).tableau.names .var) := by
      intro s hs
      exact fits_after (hf.2 s hs) fun he => hd.1 s ⟨hs, he⟩
    have hsize : (p.withColumn r.column).columns.size + records.length ≤ Table.capacity := by
      rw [size_withColumn]
      omega
    obtain ⟨created, hrun, hvars, hq⟩ :=
      ih (hp.withColumn_column hlt hf.1) hsize hnext hd.2
    refine ⟨p.nextHandle .var :: created, ?_, ?_, hq⟩
    · simp only [List.mapM_cons, Edit.bind_apply, hp.addVariableRecord_eq hlt hf.1, hrun,
        Edit.pure_apply]
      rfl
    · rw [vars_withColumn, List.append_assoc] at hvars
      exact hvars

theorem room_of_addVariableRecord {r : VariableRecord} (hr : r.Fits (p.tableau.names .var))
    (hroom : (Edit.final (addVariableRecord r) p).InCapacity) :
    p.columns.size < Table.capacity := by
  have hadd := hp.addVariable_eq hr.name r.type
  unfold addVariableRecord at hroom
  have hq := inCapacity_of_bind (fun v => ?_) hroom
  · rw [Edit.final_ok hadd] at hq
    exact lt_capacity_of_withColumn hq
  · split
    · exact Grows.pure v
    · exact (Grows.setBound v r.bound).bind fun _ => Grows.pure v

theorem room_of_addVariables (hcap : p.InCapacity) {records : List VariableRecord}
    (hf : ∀ r ∈ records, r.Fits (p.tableau.names .var)) (hd : (records.map (·.name)).Nodup)
    (hroom : (Edit.final (records.mapM addVariableRecord) p).InCapacity) :
    p.columns.size + records.length ≤ Table.capacity := by
  induction records generalizing p with
  | nil => exact hcap .var
  | cons r records ih =>
    rw [List.forall_mem_cons] at hf
    rw [List.map_cons, List.nodup_cons, List.mem_map, not_exists] at hd
    rw [List.mapM_cons] at hroom
    have hlt := hp.room_of_addVariableRecord hf.1
      (inCapacity_of_bind (fun v => (Grows.mapM Grows.addVariableRecord records).bind fun vs =>
        Grows.pure (v :: vs)) hroom)
    have hnext : ∀ s ∈ records, s.Fits ((p.withColumn r.column).tableau.names .var) := by
      intro s hs
      exact fits_after (hf.2 s hs) fun he => hd.1 s ⟨hs, he⟩
    have hq := hp.withColumn_column hlt hf.1
    rw [Edit.final_bind_ok (hp.addVariableRecord_eq hlt hf.1), Edit.final_bind_pure] at hroom
    have hrest := ih hq (inCapacity_of_grows (Grows.mapM Grows.addVariableRecord _) hroom) hnext
      hd.2 hroom
    rw [size_withColumn] at hrest
    rw [List.length_cons]
    omega

end Consistent

section Rows

variable {named : List (String × Variable)} {known : List String}

def rowFor (p : Problem) (named : List (String × Variable)) (r : ConstraintRecord) : Row :=
  ⟨r.name, r.bound, p.rowOf (some (formOf named r.terms))⟩

theorem vars_withRow (p : Problem) (r : Row) : (p.withRow r).vars = p.vars := rfl

theorem takes_withRow {r : Row} {l : Option Linear} : (p.withRow r).Takes l ↔ p.Takes l := by
  unfold Takes
  rw [vars_withRow]

theorem rowFor_withRow (r : Row) (s : ConstraintRecord) :
    (p.withRow r).rowFor named s = p.rowFor named s := rfl

theorem fitsRow_after {r : Row} {s : ConstraintRecord}
    (hs : s.Fits (p.tableau.names .constraint) known) (hne : s.name ≠ r.name) :
    s.Fits ((p.withRow r).tableau.names .constraint) known := by
  refine ⟨?_, hs.bound, hs.terms⟩
  have hn : (p.withRow r).tableau.names .constraint = p.tableau.names .constraint ++ [r.name] := by
    simp [withRow, revised, Tableau.names]
  rw [hn]
  exact hs.name.append hne

namespace Consistent

variable (hp : p.Consistent)
include hp

theorem addConstraintRecord_eq {r : ConstraintRecord}
    (hr : r.Fits (p.tableau.names .constraint) known)
    (ht : p.Takes (some (formOf named r.terms))) :
    addConstraintRecord named r p = .ok () (p.withRow (p.rowFor named r)) := by
  simp only [addConstraintRecord, Edit.bind_apply, hp.addConstraint_eq hr.name ht hr.bound,
    Edit.pure_apply, rowFor]

theorem withRow_rowFor {r : ConstraintRecord} (hroom : p.rows.size < Table.capacity)
    (hr : r.Fits (p.tableau.names .constraint) known)
    (ht : p.Takes (some (formOf named r.terms))) : (p.withRow (p.rowFor named r)).Consistent :=
  hp.withRow hroom hr.name hr.bound (hp.rowOf_proper ht)

theorem addConstraints_eq {records : List ConstraintRecord}
    (hroom : p.rows.size + records.length ≤ Table.capacity)
    (hf : ∀ r ∈ records, r.Fits (p.tableau.names .constraint) known)
    (hd : (records.map (·.name)).Nodup)
    (ht : ∀ r ∈ records, p.Takes (some (formOf named r.terms))) :
    records.forM (addConstraintRecord named) p =
        .ok () (p.withRows (records.map (p.rowFor named))) ∧
      (p.withRows (records.map (p.rowFor named))).Consistent := by
  induction records generalizing p with
  | nil => exact ⟨rfl, hp⟩
  | cons r records ih =>
    rw [List.forall_mem_cons] at hf ht
    rw [List.map_cons, List.nodup_cons, List.mem_map, not_exists] at hd
    rw [List.length_cons] at hroom
    have hlt : p.rows.size < Table.capacity := by omega
    let q := p.withRow (p.rowFor named r)
    have hnext : ∀ s ∈ records, s.Fits (q.tableau.names .constraint) known := by
      intro s hs
      exact fitsRow_after (hf.2 s hs) fun he => hd.1 s ⟨hs, he⟩
    have hsize : q.rows.size + records.length ≤ Table.capacity := by
      rw [size_withRow]
      omega
    have htake : ∀ s ∈ records, q.Takes (some (formOf named s.terms)) :=
      fun s hs => takes_withRow.mpr (ht.2 s hs)
    have hrows : records.map (q.rowFor named) = records.map (p.rowFor named) :=
      List.map_congr_left fun s _ => rowFor_withRow _ s
    obtain ⟨hrun, hq⟩ := ih (hp.withRow_rowFor hlt hf.1 ht.1) hsize hnext hd.2 htake
    rw [hrows] at hrun hq
    refine ⟨?_, hq⟩
    change (addConstraintRecord named r >>= fun _ => records.forM (addConstraintRecord named)) p = _
    rw [Edit.bind_apply, hp.addConstraintRecord_eq hf.1 ht.1]
    exact hrun

theorem addConstraints_cases (hcap : p.InCapacity) {records : List ConstraintRecord}
    (hf : ∀ r ∈ records, r.Fits (p.tableau.names .constraint) known)
    (hd : (records.map (·.name)).Nodup)
    (hroom : (Edit.final (records.forM (addConstraintRecord named)) p).InCapacity) :
    ((∀ r ∈ records, p.Takes (some (formOf named r.terms))) ∧
        p.rows.size + records.length ≤ Table.capacity) ∨
      (¬ ∀ r ∈ records, p.Takes (some (formOf named r.terms))) ∧
        ∃ e q, records.forM (addConstraintRecord named) p = .error e q ∧ q.columns = p.columns := by
  induction records generalizing p with
  | nil => exact .inl ⟨by simp, hcap .constraint⟩
  | cons r records ih =>
    have hcons : (r :: records).forM (addConstraintRecord named) =
      addConstraintRecord named r >>= fun _ => records.forM (addConstraintRecord named) := rfl
    rw [List.forall_mem_cons] at hf
    rw [List.map_cons, List.nodup_cons, List.mem_map, not_exists] at hd
    rw [hcons] at hroom ⊢
    rw [List.forall_mem_cons, List.length_cons]
    by_cases ht : p.Takes (some (formOf named r.terms))
    · let q := p.withRow (p.rowFor named r)
      have hrun : addConstraintRecord named r p = .ok () q := hp.addConstraintRecord_eq hf.1 ht
      rw [Edit.final_bind_ok hrun] at hroom
      have hqcap : q.InCapacity :=
        inCapacity_of_grows (Grows.forM (Grows.addConstraintRecord named) records) hroom
      have hlt := lt_capacity_of_withRow hqcap
      have hnext : ∀ s ∈ records, s.Fits (q.tableau.names .constraint) known := by
        intro s hs
        exact fitsRow_after (hf.2 s hs) fun he => hd.1 s ⟨hs, he⟩
      rw [Edit.bind_apply, hrun]
      obtain ⟨hall, hsize⟩ | ⟨hsome, e, t, herr, hcols⟩ :=
        ih (hp.withRow_rowFor hlt hf.1 ht) hqcap hnext hd.2 hroom
      · refine .inl ⟨⟨ht, fun s hs => takes_withRow.mp (hall s hs)⟩, ?_⟩
        rw [size_withRow] at hsize
        omega
      · refine .inr ⟨fun hall => hsome fun s hs => takes_withRow.mpr (hall.2 s hs), e, t, herr, ?_⟩
        exact hcols
    · refine .inr ⟨fun hall => ht hall.1, ?_⟩
      obtain ⟨e, he⟩ | ⟨⟨-, htakes, -⟩, -⟩ :=
        hp.addConstraint_cases r.name (some (formOf named r.terms)) r.bound
      · exact ⟨.refused e, p, by simp only [addConstraintRecord, Edit.bind_apply, he], rfl⟩
      · exact absurd htakes ht

end Consistent

end Rows

end Problem

end LinearProgram
