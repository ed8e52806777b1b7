/-!
Finite maps that keep the order in which their keys came in. Giving a present key a new value keeps
its place; a key that comes back after it was erased goes to the end.
-/

namespace LinearProgram

structure Registry (κ ν : Type) where
  entries : List (κ × ν)
  nodup : (entries.map Prod.fst).Nodup

namespace Registry

variable {κ ν : Type}

def empty : Registry κ ν := ⟨[], List.nodup_nil⟩

instance : Inhabited (Registry κ ν) := ⟨empty⟩

def keys (r : Registry κ ν) : List κ := r.entries.map Prod.fst

def size (r : Registry κ ν) : Nat := r.entries.length

def isEmpty (r : Registry κ ν) : Bool := r.entries.isEmpty

variable [DecidableEq κ]

def find? (r : Registry κ ν) (k : κ) : Option ν := r.entries.lookup k

def contains (r : Registry κ ν) (k : κ) : Bool := r.keys.contains k

def setEntry (k : κ) (v : ν) (entries : List (κ × ν)) : List (κ × ν) :=
  entries.map fun e => if e.1 = k then (k, v) else e

theorem keys_setEntry (k : κ) (v : ν) (entries : List (κ × ν)) :
    (setEntry k v entries).map Prod.fst = entries.map Prod.fst := by
  simp only [setEntry, List.map_map]
  apply List.map_congr_left
  intro e _
  by_cases h : e.1 = k <;> simp [h]

theorem mem_setEntry {k : κ} {v : ν} {entries : List (κ × ν)} {e : κ × ν}
    (h : e ∈ setEntry k v entries) : e = (k, v) ∨ e ∈ entries := by
  obtain ⟨d, hd, rfl⟩ := List.mem_map.mp h
  by_cases hk : d.1 = k <;> simp [hk, hd]

def insert (r : Registry κ ν) (k : κ) (v : ν) : Registry κ ν :=
  if h : k ∈ r.keys then
    ⟨setEntry k v r.entries, by rw [keys_setEntry]; exact r.nodup⟩
  else
    ⟨r.entries ++ [(k, v)], by
      simp only [List.map_append, List.map_cons, List.map_nil]
      refine List.nodup_append.mpr ⟨r.nodup, by simp, ?_⟩
      intro a ha b hb hab
      simp only [List.mem_singleton] at hb
      exact h (hb ▸ hab ▸ ha)⟩

theorem mem_insert {r : Registry κ ν} {k : κ} {v : ν} {e : κ × ν}
    (h : e ∈ (r.insert k v).entries) : e = (k, v) ∨ e ∈ r.entries := by
  unfold insert at h
  split at h
  · exact mem_setEntry h
  · simpa [or_comm] using h

def erase (r : Registry κ ν) (k : κ) : Registry κ ν :=
  ⟨r.entries.filter (·.1 ≠ k),
    List.Sublist.nodup (List.Sublist.map Prod.fst List.filter_sublist) r.nodup⟩

theorem mem_erase {r : Registry κ ν} {k : κ} {e : κ × ν} (h : e ∈ (r.erase k).entries) :
    e ∈ r.entries := (List.mem_filter.mp h).1

def ofList (entries : List (κ × ν)) : Registry κ ν :=
  entries.foldl (fun r e => r.insert e.1 e.2) empty

instance [BEq ν] : BEq (Registry κ ν) where
  beq a b := a.size == b.size && a.entries.all fun e => (b.find? e.1).any (e.2 == ·)

end Registry

end LinearProgram
