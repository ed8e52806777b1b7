import LinearProgram.Proofs.Document.Checking
import LinearProgram.Proofs.Problem.Resolving

namespace LinearProgram

namespace ConstraintRecord

def sum? (r : ConstraintRecord) (name : String) : Option Float :=
  ((r.terms.filter (·.1 = name)).map (·.2)).foldl Linear.tally none

def Summable (r : ConstraintRecord) : Prop :=
  ∀ name x, r.sum? name = some x → x.isNaN = false

end ConstraintRecord

namespace Problem

structure Naming (named : List (String × Variable)) : Prop where
  names : (named.map Prod.fst).Nodup
  vars : (named.map Prod.snd).Nodup

def termFor? (named : List (String × Variable)) (t : String × Float) : Option Term :=
  (named.lookup t.1).map fun v => ⟨t.2, v⟩

variable {named : List (String × Variable)} {name : String} {v : Variable}
  {terms : List (String × Float)} {p : Problem}

theorem formOf_eq (named : List (String × Variable)) (terms : List (String × Float)) :
    formOf named terms = .ofTerms (terms.filterMap (termFor? named)) := rfl

namespace Naming

variable (hn : Naming named)
include hn

theorem lookup_eq_some_iff : named.lookup name = some v ↔ (name, v) ∈ named :=
  Registry.lookup_eq_some_iff hn.names

theorem name_eq {other : String} (h : (name, v) ∈ named) (ho : (other, v) ∈ named) :
    other = name :=
  congrArg Prod.fst (List.inj_on_of_nodup_map hn.vars ho h rfl)

theorem sharesOf_terms (hv : (name, v) ∈ named) (terms : List (String × Float)) :
    Linear.sharesOf v (terms.filterMap (termFor? named)) =
      (terms.filter (·.1 = name)).map (·.2) := by
  induction terms with
  | nil => rfl
  | cons t terms ih =>
    by_cases ht : t.1 = name
    · have hl : named.lookup t.1 = some v := by rw [ht, hn.lookup_eq_some_iff]; exact hv
      have hterm : termFor? named t = some ⟨t.2, v⟩ := by rw [termFor?, hl]; rfl
      rw [List.filterMap_cons_some hterm]
      simpa [Linear.sharesOf, ht] using ih
    · cases hl : named.lookup t.1 with
      | none =>
        have hterm : termFor? named t = none := by rw [termFor?, hl]; rfl
        rw [List.filterMap_cons_none hterm]
        simpa [ht] using ih
      | some w =>
        have hterm : termFor? named t = some ⟨t.2, w⟩ := by rw [termFor?, hl]; rfl
        have hw : w ≠ v := by
          rintro rfl
          exact ht (hn.name_eq hv (hn.lookup_eq_some_iff.mp hl))
        rw [List.filterMap_cons_some hterm]
        simpa [Linear.sharesOf, ht, hw] using ih

theorem coefficient?_formOf (hv : (name, v) ∈ named) (r : ConstraintRecord) :
    (formOf named r.terms).coefficient? v = r.sum? name := by
  rw [formOf_eq, Linear.coefficient?_ofTerms, hn.sharesOf_terms hv]
  rfl

theorem mem_of_mem_formOf (hv : v ∈ (formOf named terms).vars) : ∃ name, (name, v) ∈ named := by
  rcases Linear.mem_vars_addAll hv with hm | ⟨t, ht, rfl⟩
  · cases hm
  · obtain ⟨u, -, hu⟩ := List.mem_filterMap.mp ht
    obtain ⟨w, hw, rfl⟩ := Option.map_eq_some_iff.mp hu
    exact ⟨u.1, hn.lookup_eq_some_iff.mp hw⟩

theorem takes_formOf_iff (hlive : ∀ e ∈ named, e.2 ∈ p.vars) {r : ConstraintRecord}
    (hknown : ∀ t ∈ r.terms, t.1 ∈ named.map Prod.fst) :
    p.Takes (some (formOf named r.terms)) ↔ r.Summable := by
  constructor
  · intro ht name x hx
    have hm : ∃ t ∈ r.terms, t.1 = name := by
      by_contra hne
      have hnil : r.terms.filter (·.1 = name) = [] := by
        rw [List.filter_eq_nil_iff]
        intro t hm he
        exact hne ⟨t, hm, of_decide_eq_true he⟩
      rw [ConstraintRecord.sum?, hnil] at hx
      cases hx
    obtain ⟨t, hm, rfl⟩ := hm
    obtain ⟨⟨n, v⟩, hv, rfl⟩ := List.mem_map.mp (hknown t hm)
    rw [← hn.coefficient?_formOf hv] at hx
    exact (ht ⟨x, v⟩ (Linear.mem_terms.mpr hx)).1
  · intro hs t ht
    have hc := Linear.mem_terms.mp ht
    obtain ⟨name, hv⟩ := hn.mem_of_mem_formOf (Linear.mem_vars.mpr ⟨_, hc⟩)
    rw [hn.coefficient?_formOf hv] at hc
    exact ⟨hs name t.coefficient hc, hlive _ hv⟩

end Naming

end Problem

end LinearProgram
