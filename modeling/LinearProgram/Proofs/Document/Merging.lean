import LinearProgram.Proofs.Document.Appending
import LinearProgram.Proofs.Number.Order

namespace LinearProgram

namespace Registry

variable {κ κ' ν : Type} {f : κ → κ'} {S : Set κ} {r : Registry κ ν} {r' : Registry κ' ν} {k : κ}

structure Renamed (f : κ → κ') (S : Set κ) (r : Registry κ ν) (r' : Registry κ' ν) : Prop where
  entries : r'.entries = r.entries.map fun e => (f e.1, e.2)
  keys : ∀ e ∈ r.entries, e.1 ∈ S

theorem renamed_empty : Renamed f S (empty : Registry κ ν) empty := ⟨rfl, nofun⟩

namespace Renamed

variable (h : Renamed f S r r') (hf : Set.InjOn f S) (hk : k ∈ S)
include h hf hk

theorem mem_entries {v : ν} : (f k, v) ∈ r'.entries ↔ (k, v) ∈ r.entries := by
  rw [h.entries, List.mem_map]
  constructor
  · rintro ⟨e, he, hkv⟩
    obtain ⟨hkey, rfl⟩ := Prod.mk.inj hkv
    rwa [← hf (h.keys e he) hk hkey]
  · intro he
    exact ⟨_, he, rfl⟩

theorem mem_keys : f k ∈ r'.keys ↔ k ∈ r.keys := by
  rw [Registry.mem_keys, Registry.mem_keys]
  exact exists_congr fun v => h.mem_entries hf hk

variable [DecidableEq κ] [DecidableEq κ']

theorem find?_eq : r'.find? (f k) = r.find? k := by
  apply Option.ext
  intro v
  rw [find?_eq_some_iff, find?_eq_some_iff, h.mem_entries hf hk]

theorem insert (v : ν) : Renamed f S (r.insert k v) (r'.insert (f k) v) where
  entries := by
    by_cases hm : k ∈ r.keys
    · rw [entries_insert_of_mem hm, entries_insert_of_mem ((h.mem_keys hf hk).mpr hm), setEntry,
        setEntry, h.entries, List.map_map, List.map_map]
      refine List.map_congr_left fun e he => ?_
      have hiff : f e.1 = f k ↔ e.1 = k := hf.eq_iff (h.keys e he) hk
      simp only [Function.comp_apply, hiff]
      split <;> rfl
    · rw [entries_insert_of_notMem hm, entries_insert_of_notMem (mt (h.mem_keys hf hk).mp hm),
        h.entries, List.map_append]
      rfl
  keys e he := by
    rcases mem_insert he with rfl | he
    · exact hk
    · exact h.keys e he

theorem erase : Renamed f S (r.erase k) (r'.erase (f k)) where
  entries := by
    simp only [Registry.erase, h.entries, List.filter_map]
    congr 1
    refine List.filter_congr fun e he => ?_
    have hiff : f e.1 = f k ↔ e.1 = k := hf.eq_iff (h.keys e he) hk
    simp [hiff]
  keys e he := h.keys e (mem_erase he)

end Renamed

end Registry

namespace ConstraintRecord

def addTerm (sums : Registry String Float) (t : String × Float) : Registry String Float :=
  if t.2 == 0 then sums
  else if (sums.find? t.1).getD 0 + t.2 == 0 then sums.erase t.1
  else sums.insert t.1 ((sums.find? t.1).getD 0 + t.2)

/-- The record with one term for each name, which is the sum of its terms in their order. -/
def merged (r : ConstraintRecord) : ConstraintRecord :=
  { r with terms := (r.terms.foldl addTerm .empty).entries }

/-- Terms over one name that are numbers have a sum that is a number. -/
def Adds (r : ConstraintRecord) : Prop :=
  ∀ name, (∀ t ∈ r.terms, t.1 = name → t.2.isNaN = false) →
    ∀ x, r.sum? name = some x → x.isNaN = false

theorem Adds.summable {r : ConstraintRecord} (h : r.Adds) (ht : ∀ t ∈ r.terms, t.2.isNaN = false) :
    r.Summable := fun name => h name fun t hm _ => ht t hm

end ConstraintRecord

theorem Double.isNaN_add_finite {x y : Float} (hx : x.isNaN = false) (hy : y.isFinite = true) :
    (x + y).isNaN = false :=
  ((isNaN_pack _).trans (isNaN_add _ hy)).trans hx

theorem Linear.isNaN_tally_finite {sum : Option Float} (hs : ∀ x ∈ sum, x.isNaN = false) {y : Float}
    (hy : y.isFinite = true) : ∀ x ∈ tally sum y, x.isNaN = false := by
  have hstart : (sum.getD 0).isNaN = false := by
    cases sum with
    | none => exact Double.isNaN_zero
    | some x => exact hs x rfl
  intro x hx
  unfold tally at hx
  split at hx
  · exact hs x hx
  · split at hx
    · cases hx
    · cases hx
      exact Double.isNaN_add_finite hstart hy

theorem ConstraintRecord.adds_of_finite {r : ConstraintRecord}
    (h : ∀ t ∈ r.terms, t.2.isFinite = true) : r.Adds := by
  have hfold (xs : List Float) (hxs : ∀ x ∈ xs, x.isFinite = true) (sum : Option Float)
      (hs : ∀ x ∈ sum, x.isNaN = false) : ∀ x ∈ xs.foldl Linear.tally sum, x.isNaN = false := by
    induction xs generalizing sum with
    | nil => exact hs
    | cons y xs ih =>
      rw [List.forall_mem_cons] at hxs
      exact ih hxs.2 _ (Linear.isNaN_tally_finite hs hxs.1)
  intro name _
  refine hfold _ ?_ none nofun
  rw [List.forall_mem_map]
  exact fun t ht => h t (List.mem_filter.mp ht).1

theorem Linear.coefficients_set (l : Linear) (x : Float) (v : Variable) :
    (l.set x v).coefficients =
      if x == 0 then l.coefficients.erase v else l.coefficients.insert v x := by
  unfold set
  split <;> rfl

namespace Problem

open Registry ConstraintRecord

variable {p q : Problem} {d : Document} {created : List Variable}
  {named : List (String × Variable)} {f : Variable → String}

section Naming

variable (hn : Naming named) (hf : ∀ e ∈ named, f e.2 = e.1)
include hn hf

theorem injOn_names : Set.InjOn f {v | v ∈ named.map Prod.snd} := by
  intro v hv w hw hvw
  obtain ⟨e, he, rfl⟩ := List.mem_map.mp hv
  obtain ⟨e', he', rfl⟩ := List.mem_map.mp hw
  rw [hf e he, hf e' he'] at hvw
  exact congrArg Prod.snd (List.inj_on_of_nodup_map hn.names he he' hvw)

theorem renamed_add {l : Linear} {sums : Registry String Float} {t : String × Float} {v : Variable}
    (h : Renamed f {v | v ∈ named.map Prod.snd} l.coefficients sums) (hv : (t.1, v) ∈ named) :
    Renamed f {v | v ∈ named.map Prod.snd} (l.add ⟨t.2, v⟩).coefficients (addTerm sums t) := by
  have hinj := injOn_names hn hf
  have hmem : v ∈ {v | v ∈ named.map Prod.snd} := List.mem_map.mpr ⟨_, hv, rfl⟩
  have hname : t.1 = f v := (hf _ hv).symm
  have hfind : sums.find? t.1 = l.coefficient? v := hname ▸ h.find?_eq hinj hmem
  unfold addTerm Linear.add
  rw [hfind]
  split
  · exact h
  · rw [Linear.coefficients_set, hname]
    split
    · exact h.erase hinj hmem
    · exact h.insert hinj hmem _

theorem renamed_formOf {terms : List (String × Float)}
    (hknown : ∀ t ∈ terms, t.1 ∈ named.map Prod.fst) :
    Renamed f {v | v ∈ named.map Prod.snd} (formOf named terms).coefficients
      (terms.foldl addTerm .empty) := by
  -- for any start: the induction is on the terms, and both sums grow with them
  have hfold (l : Linear) (sums : Registry String Float)
      (h : Renamed f {v | v ∈ named.map Prod.snd} l.coefficients sums) :
      Renamed f {v | v ∈ named.map Prod.snd}
        (l.addAll (terms.filterMap (termFor? named))).coefficients (terms.foldl addTerm sums) := by
    induction terms generalizing l sums with
    | nil => exact h
    | cons t terms ih =>
      rw [List.forall_mem_cons] at hknown
      obtain ⟨⟨name, v⟩, hv, hname⟩ := List.mem_map.mp hknown.1
      have hv' : (t.1, v) ∈ named := hname ▸ hv
      have hterm : termFor? named t = some ⟨t.2, v⟩ := by
        rw [termFor?, hn.lookup_eq_some_iff.mpr hv']
        rfl
      rw [List.filterMap_cons_some hterm]
      exact ih hknown.2 _ _ (renamed_add hn hf h hv')
  rw [formOf_eq]
  exact hfold _ _ renamed_empty

end Naming

end Problem

end LinearProgram
