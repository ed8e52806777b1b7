import LinearProgram.Proofs.Problem.Building
import LinearProgram.Proofs.Problem.Reading

namespace LinearProgram

def Column.priced (c : Column) (x : Float) : Column := { c with objective := Double.plain x }

namespace Problem

variable {p : Problem} {created : List Variable} {prices : List Float}

def extendedForm (p : Problem) (prices : List Float) (created : List Variable) : Linear :=
  p.objectiveForm.addAll (List.zipWith Term.mk prices created)

theorem vars_zipWith (hl : prices.length = created.length) :
    (List.zipWith Term.mk prices created).map (·.var) = created := by
  induction prices generalizing created with
  | nil => simpa [eq_comm] using hl
  | cons x prices ih =>
    cases created with
    | nil => simp at hl
    | cons v created => simpa using ih (by simpa using hl)

theorem mem_zipWith {t : Term} : t ∈ List.zipWith Term.mk prices created ↔
    ∃ k : Nat, prices[k]? = some t.coefficient ∧ created[k]? = some t.var := by
  rw [List.mem_iff_getElem?]
  apply exists_congr
  intro k
  rw [List.getElem?_zipWith]
  obtain ⟨x, v⟩ := t
  cases prices[k]? <;> cases created[k]? <;> simp

namespace Consistent

variable (hp : p.Consistent) (hl : prices.length = created.length)
  (hd : (p.vars ++ created).Nodup)
include hp

theorem mem_vars_of_objectiveForm {v : Variable} (hv : v ∈ p.objectiveForm.vars) : v ∈ p.vars := by
  rw [Linear.vars_eq_map_terms, hp.terms_objectiveForm, List.map_map, List.mem_map] at hv
  obtain ⟨e, he, rfl⟩ := hv
  have hlt : e.column < p.vars.length := hp.length_vars ▸ lt_of_mem_priceEntries he
  rw [Function.comp_apply, var_termAt hlt]
  exact List.getElem_mem hlt

include hl hd

theorem terms_extendedForm : (p.extendedForm prices created).terms =
    p.objectiveForm.terms ++
      (List.zipWith Term.mk prices created).filter fun t => !(t.coefficient == 0) := by
  apply Linear.terms_addAll_fresh
  · rw [vars_zipWith hl]
    exact (List.nodup_append'.mp hd).2.1
  · intro t ht hv
    have hc : t.var ∈ created := by
      rw [← vars_zipWith hl]
      exact List.mem_map_of_mem ht
    exact (List.nodup_append'.mp hd).2.2 (hp.mem_vars_of_objectiveForm hv) hc

theorem mem_extendedForm {t : Term} : t ∈ (p.extendedForm prices created).terms ↔
    t ∈ p.objectiveForm.terms ∨
      t ∈ List.zipWith Term.mk prices created ∧ (t.coefficient == 0) = false := by
  rw [hp.terms_extendedForm hl hd, List.mem_append, List.mem_filter]
  simp

theorem extendedForm_number (hx : ∀ x ∈ prices, x.isNaN = false) {t : Term}
    (ht : t ∈ (p.extendedForm prices created).terms) : t.coefficient.isNaN = false := by
  rcases (hp.mem_extendedForm hl hd).mp ht with ht | ⟨ht, -⟩
  · rw [hp.terms_objectiveForm, List.mem_map] at ht
    obtain ⟨e, he, rfl⟩ := ht
    obtain ⟨⟨c, hc, hprice⟩, -⟩ := mem_priceEntries.mp he
    rw [termAt, ← hprice]
    exact hp.sound.shares c (List.mem_of_getElem? hc)
  · obtain ⟨k, hk, -⟩ := mem_zipWith.mp ht
    exact hx _ (List.mem_of_getElem? hk)

theorem var_mem_of_extendedForm {t : Term} (ht : t ∈ (p.extendedForm prices created).terms) :
    t.var ∈ p.vars ++ created := by
  rw [List.mem_append]
  rcases (hp.mem_extendedForm hl hd).mp ht with ht | ⟨ht, -⟩
  · left
    apply hp.mem_vars_of_objectiveForm
    rw [Linear.vars_eq_map_terms]
    exact List.mem_map_of_mem ht
  · obtain ⟨k, -, hk⟩ := mem_zipWith.mp ht
    exact .inr (List.mem_of_getElem? hk)

theorem share_extendedForm_old {i : Nat} {v : Variable} (hv : p.vars[i]? = some v) {c : Column}
    (hc : p.tableau.columns[i]? = some c) :
    Linear.share (some (p.extendedForm prices created)) v = Double.plain c.objective := by
  have hnew : v ∉ created := (List.nodup_append'.mp hd).2.2 (List.mem_of_getElem? hv)
  have hcoeff := hp.coefficient?_objectiveForm hv hc
  unfold Double.plain
  by_cases hz : (c.objective == 0) = true
  · rw [if_pos hz] at hcoeff ⊢
    apply Linear.share_eq_zero
    intro t ht htv
    rcases (hp.mem_extendedForm hl hd).mp ht with ht | ⟨ht, -⟩
    · rw [Linear.mem_terms, htv, hcoeff] at ht
      cases ht
    · obtain ⟨k, -, hk⟩ := mem_zipWith.mp ht
      exact hnew (htv ▸ List.mem_of_getElem? hk)
  · rw [if_neg hz] at hcoeff ⊢
    have ht : (⟨c.objective, v⟩ : Term) ∈ (p.extendedForm prices created).terms :=
      (hp.mem_extendedForm hl hd).mpr (.inl (Linear.mem_terms.mpr hcoeff))
    exact Linear.share_of_mem (l := some (p.extendedForm prices created)) ht

theorem share_extendedForm_new {k : Nat} {v : Variable} (hv : created[k]? = some v) {x : Float}
    (hx : prices[k]? = some x) :
    Linear.share (some (p.extendedForm prices created)) v = Double.plain x := by
  obtain ⟨-, hdc, hdisjoint⟩ := List.nodup_append'.mp hd
  unfold Double.plain
  by_cases hz : (x == 0) = true
  · rw [if_pos hz]
    apply Linear.share_eq_zero
    intro t ht htv
    rcases (hp.mem_extendedForm hl hd).mp ht with ht | ⟨ht, hnz⟩
    · have hold : t.var ∈ p.vars := by
        apply hp.mem_vars_of_objectiveForm
        rw [Linear.vars_eq_map_terms]
        exact List.mem_map_of_mem ht
      exact hdisjoint hold (htv ▸ List.mem_of_getElem? hv)
    · obtain ⟨j, hj, hjv⟩ := mem_zipWith.mp ht
      have hjk : j = k := by
        apply (List.getElem?_inj (List.getElem?_eq_some_iff.mp hjv).1 hdc).mp
        rw [hjv, htv, hv]
      rw [hjk, hx, Option.some.injEq] at hj
      rw [← hj, hz] at hnz
      cases hnz
  · rw [if_neg hz]
    have ht : (⟨x, v⟩ : Term) ∈ (p.extendedForm prices created).terms :=
      (hp.mem_extendedForm hl hd).mpr
        (.inr ⟨mem_zipWith.mpr ⟨k, hx, hv⟩, Bool.eq_false_iff.mpr hz⟩)
    exact Linear.share_of_mem (l := some (p.extendedForm prices created)) ht

theorem shares_extendedForm :
    (p.vars ++ created).map (Linear.share (some (p.extendedForm prices created))) =
      p.tableau.columns.map (fun c => Double.plain c.objective) ++ prices.map Double.plain := by
  rw [List.map_append]
  congr 1
  · apply List.ext_getElem?
    intro i
    rw [List.getElem?_map, List.getElem?_map]
    by_cases hi : i < p.vars.length
    · have hv := List.getElem?_eq_getElem hi
      have hc := List.getElem?_eq_getElem (hp.length_vars ▸ hi)
      rw [hv, hc, Option.map_some, Option.map_some, hp.share_extendedForm_old hl hd hv hc]
    · have hi' : p.tableau.columns.length ≤ i := by
        rw [← hp.length_vars]
        omega
      rw [List.getElem?_eq_none (by omega), List.getElem?_eq_none hi']
      rfl
  · apply List.ext_getElem?
    intro k
    rw [List.getElem?_map, List.getElem?_map]
    by_cases hk : k < created.length
    · have hv := List.getElem?_eq_getElem hk
      have hx := List.getElem?_eq_getElem (hl.symm ▸ hk)
      rw [hv, hx, Option.map_some, Option.map_some, hp.share_extendedForm_new hl hd hv hx]
    · rw [List.getElem?_eq_none (by omega), List.getElem?_eq_none (by omega)]
      rfl

end Consistent

end Problem

end LinearProgram
