import LinearProgram.Registry
import Mathlib.Data.List.Basic
import Mathlib.Data.List.Induction

namespace LinearProgram.Registry

variable {κ ν : Type} [DecidableEq κ]

theorem lookup_eq_some_iff {entries : List (κ × ν)} (h : (entries.map Prod.fst).Nodup) {k : κ}
    {v : ν} : entries.lookup k = some v ↔ (k, v) ∈ entries := by
  induction entries with
  | nil => simp
  | cons e entries ih =>
    obtain ⟨j, w⟩ := e
    simp only [List.map_cons, List.nodup_cons, List.mem_map, Prod.exists, exists_and_right,
      exists_eq_right, not_exists] at h
    rw [List.lookup_cons]
    by_cases hk : k = j
    · subst hk
      simp only [beq_self_eq_true, Option.some.injEq, List.mem_cons, Prod.mk.injEq, true_and]
      exact ⟨fun hv => .inl hv.symm, fun hv => hv.elim Eq.symm fun hm => absurd hm (h.1 v)⟩
    · simp [beq_false_of_ne hk, ih h.2, hk]

theorem find?_eq_some_iff {r : Registry κ ν} {k : κ} {v : ν} :
    r.find? k = some v ↔ (k, v) ∈ r.entries := lookup_eq_some_iff r.nodup

omit [DecidableEq κ] in
theorem mem_keys {r : Registry κ ν} {k : κ} : k ∈ r.keys ↔ ∃ v, (k, v) ∈ r.entries := by
  simp [keys]

theorem find?_eq_none_iff {r : Registry κ ν} {k : κ} : r.find? k = none ↔ k ∉ r.keys := by
  rw [Option.eq_none_iff_forall_ne_some, mem_keys, not_exists]
  exact forall_congr' fun v => not_congr find?_eq_some_iff

theorem entries_insert_of_notMem {r : Registry κ ν} {k : κ} (h : k ∉ r.keys) (v : ν) :
    (r.insert k v).entries = r.entries ++ [(k, v)] := by
  simp only [insert, h, ↓reduceDIte]

theorem entries_insert_of_mem {r : Registry κ ν} {k : κ} (h : k ∈ r.keys) (v : ν) :
    (r.insert k v).entries = setEntry k v r.entries := by
  simp only [insert, h, ↓reduceDIte]

theorem mem_setEntry_iff {k j : κ} {v w : ν} {entries : List (κ × ν)} :
    (j, w) ∈ setEntry k v entries ↔
      if j = k then w = v ∧ ∃ u, (k, u) ∈ entries else (j, w) ∈ entries := by
  simp only [setEntry, List.mem_map, Prod.exists]
  split
  · rename_i hj
    subst hj
    constructor
    · rintro ⟨i, u, hm, he⟩
      by_cases hi : i = j
      · subst hi
        simp only [↓reduceIte, Prod.mk.injEq, true_and] at he
        exact ⟨he.symm, u, hm⟩
      · simp only [hi, ↓reduceIte, Prod.mk.injEq, false_and] at he
    · rintro ⟨rfl, u, hm⟩
      exact ⟨j, u, hm, by simp⟩
  · rename_i hj
    constructor
    · rintro ⟨i, u, hm, he⟩
      by_cases hi : i = k
      · simp only [hi, ↓reduceIte, Prod.mk.injEq] at he
        exact absurd he.1.symm hj
      · simp only [hi, ↓reduceIte, Prod.mk.injEq] at he
        obtain ⟨rfl, rfl⟩ := he
        exact hm
    · intro hm
      exact ⟨j, w, hm, by simp [hj]⟩

theorem find?_insert (r : Registry κ ν) (k j : κ) (v : ν) :
    (r.insert k v).find? j = if j = k then some v else r.find? j := by
  apply Option.ext
  intro w
  rw [find?_eq_some_iff]
  by_cases hk : k ∈ r.keys
  · rw [entries_insert_of_mem hk, mem_setEntry_iff]
    obtain ⟨u, hu⟩ := mem_keys.mp hk
    by_cases hj : j = k
    · simp only [hj, ↓reduceIte, Option.some.injEq]
      exact ⟨fun h => h.1.symm, fun h => ⟨h.symm, u, hu⟩⟩
    · simp only [hj, ↓reduceIte, find?_eq_some_iff]
  · rw [entries_insert_of_notMem hk, List.mem_append, List.mem_singleton, Prod.mk.injEq]
    by_cases hj : j = k
    · subst hj
      simp only [↓reduceIte, Option.some.injEq, true_and]
      exact ⟨fun h => h.elim (fun hm => absurd (mem_keys.mpr ⟨w, hm⟩) hk) Eq.symm,
        fun h => .inr h.symm⟩
    · simp only [hj, ↓reduceIte, false_and, or_false, find?_eq_some_iff]

theorem find?_ofList (f : κ → ν) (ks : List κ) (k : κ) :
    (ofList (ks.map fun j => (j, f j))).find? k = if k ∈ ks then some (f k) else none := by
  have hfold (r : Registry κ ν) : (ks.foldl (fun r j => r.insert j (f j)) r).find? k =
      if k ∈ ks then some (f k) else r.find? k := by
    induction ks generalizing r with
    | nil => simp
    | cons j ks ih =>
      rw [List.foldl_cons, ih, find?_insert]
      by_cases hk : k = j
      · subst hk
        simp
      · simp [hk]
  rw [ofList, List.foldl_map]
  exact hfold empty

theorem entries_ofList (f : κ → ν) (ks : List κ) :
    (ofList (ks.map fun k => (k, f k))).entries = ks.eraseDups.map fun k => (k, f k) := by
  induction ks using List.reverseRecOn with
  | nil => rfl
  | append_singleton ks k ih =>
    have hlast : ofList ((ks ++ [k]).map fun k => (k, f k)) =
        (ofList (ks.map fun k => (k, f k))).insert k (f k) := by
      simp [ofList, List.foldl_append]
    rw [hlast, List.eraseDups_append]
    by_cases hk : k ∈ ks
    · have hkey : k ∈ (ofList (ks.map fun k => (k, f k))).keys := by
        rw [keys, ih, List.map_map]
        simpa [Function.comp_def] using hk
      have hsame : setEntry k (f k) (ks.eraseDups.map fun k => (k, f k)) =
          ks.eraseDups.map fun k => (k, f k) := by
        rw [setEntry, List.map_map]
        refine List.map_congr_left fun j _ => ?_
        by_cases hj : j = k <;> simp [hj]
      have hnone : [k].removeAll ks = [] := by simp [List.removeAll, hk]
      rw [entries_insert_of_mem hkey, ih, hsame, hnone, List.eraseDups_nil, List.append_nil]
    · have hkey : k ∉ (ofList (ks.map fun k => (k, f k))).keys := by
        rw [keys, ih, List.map_map]
        simpa [Function.comp_def] using hk
      have hone : [k].removeAll ks = [k] := by simp [List.removeAll, hk]
      rw [entries_insert_of_notMem hkey, ih, hone, List.map_append]
      rfl

theorem find?_erase (r : Registry κ ν) (k j : κ) :
    (r.erase k).find? j = if j = k then none else r.find? j := by
  apply Option.ext
  intro w
  rw [find?_eq_some_iff]
  by_cases hj : j = k <;> simp [erase, hj, find?_eq_some_iff]

end LinearProgram.Registry
