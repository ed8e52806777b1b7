import LinearProgram.Proofs.Tableau.Change
import Mathlib.Data.Finset.Sort

namespace LinearProgram

def outside {α : Type} (S : Finset Nat) (xs : List α) : List α :=
  (xs.zipIdx.filter fun x => x.2 ∉ S).map Prod.fst

def countBelow (S : Finset Nat) (i : Nat) : Nat := (S.filter (· < i)).card

def Entry.outside (S : Finset Nat) (entries : List Entry) : List Entry :=
  (entries.filter fun e => e.column ∉ S).map fun e =>
    { e with column := e.column - countBelow S e.column }

section Positions

variable {α : Type} {S : Finset Nat} {i : Nat}

theorem outside_empty (xs : List α) : outside ∅ xs = xs := by
  simp [outside, List.zipIdx_map_fst]

theorem filter_zipIdx_above (xs : List α) {n : Nat} (h : ∀ s ∈ S, s < n) :
    ((xs.zipIdx n).filter fun x => x.2 ∉ S) = xs.zipIdx n := by
  rw [List.filter_eq_self]
  intro x hx
  have hn := List.le_snd_of_mem_zipIdx hx
  exact decide_eq_true fun hs => Nat.not_lt.mpr hn (h _ hs)

theorem outside_eraseIdx (xs : List α) (h : ∀ s ∈ S, s < i) :
    outside S (xs.eraseIdx i) = outside (insert i S) xs := by
  suffices hfrom : ∀ n, (∀ s ∈ S, s < i + n) →
      (((xs.eraseIdx i).zipIdx n).filter fun x => x.2 ∉ S).map Prod.fst =
        ((xs.zipIdx n).filter fun x => x.2 ∉ insert (i + n) S).map Prod.fst from hfrom 0 h
  clear h
  induction xs generalizing i with
  | nil => simp
  | cons x xs ih =>
    intro n h
    cases i with
    | zero =>
      rw [Nat.zero_add] at h ⊢
      have habove : ∀ s ∈ insert n S, s < n + 1 := by
        simp only [Finset.forall_mem_insert, Nat.lt_succ_self, true_and]
        exact fun s hs => Nat.lt_succ_of_lt (h s hs)
      rw [List.eraseIdx_cons_zero, List.zipIdx_cons, List.filter_cons_of_neg (by simp),
        filter_zipIdx_above _ h, filter_zipIdx_above _ habove, List.zipIdx_map_fst,
        List.zipIdx_map_fst]
    | succ i =>
      have hnext := ih (n + 1) (by simpa [Nat.add_assoc, Nat.add_comm 1 n] using h)
      have hhead : n ∈ insert (i + 1 + n) S ↔ n ∈ S := by
        rw [Finset.mem_insert, or_iff_right (by omega)]
      rw [show i + (n + 1) = i + 1 + n by omega] at hnext
      rw [List.eraseIdx_cons_succ, List.zipIdx_cons, List.zipIdx_cons, List.filter_cons,
        List.filter_cons]
      simp only [hhead]
      split
      · rw [List.map_cons, List.map_cons, hnext]
      · exact hnext

theorem countBelow_insert (h : ∀ s ∈ S, s < i) (c : Nat) :
    countBelow (insert i S) c = countBelow S c + if i < c then 1 else 0 := by
  have hi : i ∉ S := fun hs => Nat.lt_irrefl i (h i hs)
  rw [countBelow, Finset.filter_insert]
  split
  · rw [Finset.card_insert_of_notMem (by simp [hi])]
    rfl
  · rfl

theorem countBelow_sub_one (h : ∀ s ∈ S, s < i) {c : Nat} (hc : i < c) :
    countBelow S (c - 1) = countBelow S c := by
  unfold countBelow
  congr 1
  refine Finset.filter_congr fun s hs => ?_
  have := h s hs
  omega

end Positions

namespace Entry

variable {S : Finset Nat} {i : Nat}

theorem outside_empty (entries : List Entry) : outside ∅ entries = entries := by
  simp [outside, countBelow]

theorem outside_without (entries : List Entry) (h : ∀ s ∈ S, s < i) :
    outside S (without i entries) = outside (insert i S) entries := by
  have hi : i ∉ S := fun hs => Nat.lt_irrefl i (h i hs)
  have hkept (e : Entry) : (e.moved i).column ∉ S ∧ e.column ≠ i ↔ e.column ∉ insert i S := by
    rw [Finset.mem_insert, not_or, and_comm, moved_column]
    refine and_congr_right fun hne => ?_
    split
    -- above the column nothing is deleted, before it moves and after
    · have habove {c : Nat} (hc : i ≤ c) : c ∉ S := fun hs => Nat.not_lt.mpr hc (h c hs)
      exact iff_of_true (habove (by omega)) (habove (by omega))
    · rfl
  rw [without_eq, outside, outside, List.filter_map, List.filter_filter, List.map_map]
  have hfilter : entries.filter (fun e => ((fun e => decide (e.column ∉ S)) ∘ moved i) e &&
      decide (e.column ≠ i)) = entries.filter fun e => e.column ∉ insert i S := by
    refine List.filter_congr fun e _ => ?_
    rw [Function.comp_apply, ← Bool.decide_and, decide_eq_decide]
    exact hkept e
  rw [hfilter]
  refine List.map_congr_left fun e he => ?_
  have hne : e.column ≠ i := ((hkept e).mpr (by simpa using (List.mem_filter.mp he).2)).2
  have hcolumn : (e.moved i).column - countBelow S (e.moved i).column =
      e.column - countBelow (insert i S) e.column := by
    rw [moved_column, countBelow_insert h]
    split
    · rename_i hlt
      rw [countBelow_sub_one h hlt]
      omega
    · rfl
  simp only [Function.comp_apply, hcolumn, moved_coefficient]

end Entry

namespace Tableau

theorem mem_insertDescending {i j : Nat} {is : List Nat} :
    j ∈ insertDescending i is ↔ j = i ∨ j ∈ is := by
  induction is with
  | nil => simp [insertDescending]
  | cons k is ih =>
    unfold insertDescending
    split
    · simp
    · split
      · simp_all
      · simp only [List.mem_cons, ih]
        tauto

theorem pairwise_insertDescending {i : Nat} {is : List Nat} (h : is.Pairwise (· > ·)) :
    (insertDescending i is).Pairwise (· > ·) := by
  induction is with
  | nil => simp [insertDescending]
  | cons k is ih =>
    unfold insertDescending
    have hk := (List.pairwise_cons.mp h).1
    split
    · rename_i hlt
      refine List.pairwise_cons.mpr ⟨fun j hj => ?_, h⟩
      rcases List.mem_cons.mp hj with rfl | hj
      · exact hlt
      · exact (hk j hj).trans hlt
    · split
      · exact h
      · refine List.pairwise_cons.mpr ⟨fun j hj => ?_, ih h.of_cons⟩
        rcases mem_insertDescending.mp hj with rfl | hj
        · omega
        · exact hk j hj

theorem pairwise_descending (is : List Nat) : (descending is).Pairwise (· > ·) := by
  induction is with
  | nil => exact .nil
  | cons i is ih => exact pairwise_insertDescending ih

theorem mem_descending {j : Nat} {is : List Nat} : j ∈ descending is ↔ j ∈ is := by
  induction is with
  | nil => rfl
  | cons i is ih =>
    rw [List.mem_cons, ← ih]
    exact mem_insertDescending

theorem descending_eq_sort (is : List Nat) : descending is = is.toFinset.sort (· ≥ ·) := by
  have hnodup : (descending is).Nodup := (pairwise_descending is).imp fun h => (Nat.ne_of_lt h).symm
  have hperm : (descending is).Perm (is.toFinset.sort (· ≥ ·)) := by
    rw [List.perm_ext_iff_of_nodup hnodup (Finset.sort_nodup _ _)]
    simp [mem_descending]
  exact hperm.eq_of_pairwise' ((pairwise_descending is).imp le_of_lt) (Finset.pairwise_sort _ _)

def withoutColumns (t : Tableau) (S : Finset Nat) : Tableau where
  columns := outside S t.columns
  rows := t.rows.map fun r => { r with entries := Entry.outside S r.entries }
  direction := t.direction

def withoutRows (t : Tableau) (S : Finset Nat) : Tableau := { t with rows := outside S t.rows }

structure Deletion (one : Nat → Edit Unit) (count : Tableau → Nat)
    (left : Tableau → Finset Nat → Tableau) (missing : Nat → Defect) : Prop where
  single : ∀ {t i}, i < count t → ∃ u, one i t = .ok () u ∧ count t = count u + 1 ∧
    ∀ S : Finset Nat, (∀ s ∈ S, s < i) → left u S = left t (insert i S)
  refused : ∀ {t i}, count t ≤ i → one i t = .error (missing i) t
  none : ∀ t, left t ∅ = t

/-- Many columns or rows are deleted as a set, or not at all. -/
structure DeletesSets (many : List Nat → Edit Unit) (count : Tableau → Nat)
    (left : Tableau → Finset Nat → Tableau) (missing : Nat → Defect) : Prop where
  passed : ∀ t is, (∀ i ∈ is, i < count t) → many is t = .ok () (left t is.toFinset)
  refused : ∀ t is, (∃ i ∈ is, count t ≤ i) →
    ∃ i ∈ is, count t ≤ i ∧ many is t = .error (missing i) t
  set : ∀ is js, is.toFinset = js.toFinset → many is = many js
  descending : ∀ is, many is = (is.toFinset.sort (· ≥ ·)).forM fun i => many [i]

namespace Deletion

variable {one : Nat → Edit Unit} {count : Tableau → Nat} {left : Tableau → Finset Nat → Tableau}
  {missing : Nat → Defect}

theorem forM_eq (h : Deletion one count left missing) {t : Tableau} {is : List Nat}
    (hd : is.Pairwise (· > ·)) (hi : ∀ i ∈ is, i < count t) :
    is.forM one t = .ok () (left t is.toFinset) := by
  induction is generalizing t with
  | nil => exact congrArg (EStateM.Result.ok ()) (h.none t).symm
  | cons i is ih =>
    obtain ⟨hlt, hd⟩ := List.pairwise_cons.mp hd
    rw [List.forall_mem_cons] at hi
    obtain ⟨u, hu, hcount, hleft⟩ := h.single hi.1
    have hrest : is.forM one u = .ok () (left u is.toFinset) := by
      refine ih hd fun j hj => ?_
      have := hlt j hj
      omega
    rw [List.toFinset_cons, ← hleft _ fun j hj => hlt j (List.mem_toFinset.mp hj), ← hrest]
    change (one i >>= fun _ => is.forM one) t = _
    rw [Edit.bind_apply, hu]

theorem deletesSets (h : Deletion one count left missing) :
    DeletesSets (fun is => (Tableau.descending is).forM one) count left missing := by
  have hset (is : List Nat) : (Tableau.descending is).toFinset = is.toFinset := by
    ext i
    simp [mem_descending]
  refine ⟨fun t is hi => ?_, fun t is ⟨i, hi, hcount⟩ => ?_, fun is js hij => ?_, fun is => ?_⟩
  · have hrun := h.forM_eq (pairwise_descending is) fun i hm => hi i (mem_descending.mp hm)
    rwa [hset] at hrun
  -- the highest index comes first, and is out of range if any is
  · have hpairwise := pairwise_descending is
    have hmem {j : Nat} : j ∈ Tableau.descending is ↔ j ∈ is := mem_descending
    cases hs : Tableau.descending is with
    | nil =>
      rw [← hmem, hs] at hi
      cases hi
    | cons m js =>
      rw [hs] at hpairwise hmem
      have hm : count t ≤ m := by
        rcases List.mem_cons.mp (hmem.mpr hi) with rfl | hj
        · exact hcount
        · exact hcount.trans (Nat.le_of_lt ((List.pairwise_cons.mp hpairwise).1 i hj))
      refine ⟨m, hmem.mp List.mem_cons_self, hm, ?_⟩
      change (one m >>= fun _ => js.forM one) t = _
      rw [Edit.bind_apply, h.refused hm]
  · simp only [descending_eq_sort, hij]
  · have hone (i : Nat) : (Tableau.descending [i]).forM one = one i := bind_pure (one i)
    simp only [hone, descending_eq_sort is]

end Deletion

theorem deletion_column :
    Deletion deleteColumn (·.columns.length) withoutColumns .noColumn where
  single {t i} hi := by
    refine ⟨t.withoutColumn i, ?_, ?_, fun S hS => ?_⟩
    · simp only [deleteColumn, Edit.bind_apply, Edit.get_apply, hi, ↓reduceIte, Edit.set_apply]
    · simp only [withoutColumn, List.length_eraseIdx_of_lt hi]
      omega
    · simp only [withoutColumns, withoutColumn, outside_eraseIdx _ hS, List.map_map,
        Function.comp_def, Row.withoutColumn, Entry.outside_without _ hS]
  refused {t i} hi := by
    simp only [deleteColumn, Edit.bind_apply, Edit.get_apply, Nat.not_lt.mpr hi, ↓reduceIte,
      Edit.throw_apply]
  none t := by simp [withoutColumns, outside_empty, Entry.outside_empty]

theorem deletion_row : Deletion deleteRow (·.rows.length) withoutRows .noRow where
  single {t i} hi := by
    refine ⟨t.withoutRow i, ?_, ?_, fun S hS => ?_⟩
    · simp only [deleteRow, Edit.bind_apply, Edit.get_apply, hi, ↓reduceIte, Edit.set_apply]
    · simp only [withoutRow, List.length_eraseIdx_of_lt hi]
      omega
    · simp only [withoutRows, withoutRow, outside_eraseIdx _ hS]
  refused {t i} hi := by
    simp only [deleteRow, Edit.bind_apply, Edit.get_apply, Nat.not_lt.mpr hi, ↓reduceIte,
      Edit.throw_apply]
  none t := by simp [withoutRows, outside_empty]

/-- Columns are deleted as a set: what stands outside stays, in its order, and the entries of the
rows move down by as many columns as go below theirs. Rows are deleted alike. -/
theorem deletes_sets : DeletesSets deleteColumns (·.columns.length) withoutColumns .noColumn ∧
    DeletesSets deleteRows (·.rows.length) withoutRows .noRow :=
  ⟨deletion_column.deletesSets, deletion_row.deletesSets⟩

theorem deletes_sets_scattered :
    let t : Tableau := ⟨[.fresh "a", .fresh "b", .fresh "c", .fresh "d"],
      [⟨"r", .free, [⟨3, 1⟩, ⟨0, 2⟩, ⟨3, 5⟩, ⟨7, 1⟩, ⟨1, 4⟩]⟩, ⟨"s", .free, []⟩], .minimize⟩
    deleteColumns [2, 0, 2] t = .ok () ⟨[.fresh "b", .fresh "d"],
        [⟨"r", .free, [⟨1, 1⟩, ⟨1, 5⟩, ⟨5, 1⟩, ⟨0, 4⟩]⟩, ⟨"s", .free, []⟩], .minimize⟩ ∧
      deleteRows [0, 0] t = .ok () ⟨t.columns, [⟨"s", .free, []⟩], .minimize⟩ ∧
      ∃ i ∈ [1, 4], deleteColumns [1, 4] t = .error (.noColumn i) t := by
  intro t
  obtain ⟨hcolumns, hrows⟩ := deletes_sets
  refine ⟨(hcolumns.passed t [2, 0, 2] (by decide)).trans rfl,
    (hrows.passed t [0, 0] (by decide)).trans rfl, ?_⟩
  obtain ⟨i, hi, -, hrefused⟩ := hcolumns.refused t [1, 4] (by decide)
  exact ⟨i, hi, hrefused⟩

end Tableau

end LinearProgram
