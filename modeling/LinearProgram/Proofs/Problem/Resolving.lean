import LinearProgram.Proofs.Linear
import LinearProgram.Proofs.Problem.Checks

namespace LinearProgram

namespace Problem

def entryOf (p : Problem) (t : Term) : Entry := ⟨p.vars.idxOf t.var, t.coefficient⟩

def rowOf (p : Problem) (l : Option Linear) : List Entry := (Linear.termsOf l).map p.entryOf

/-- All terms are over live variables and have numbers for coefficients. -/
def Takes (p : Problem) (l : Option Linear) : Prop :=
  ∀ t ∈ Linear.termsOf l, t.coefficient.isNaN = false ∧ t.var ∈ p.vars

variable {p : Problem} {kind : EntityKind} {l : Option Linear}

theorem resolve_eq (p : Problem) (l : Option Linear) :
    p.resolve l = (Linear.termsOf l).mapM p.resolveTerm := by
  cases l <;> rfl

theorem resolveTerm_unbroken (p : Problem) (t : Term) : Outcome.Unbroken (p.resolveTerm t) := by
  unfold resolveTerm
  split
  · exact Outcome.unbroken_refused _
  · obtain ⟨i, hi⟩ | ⟨e, he⟩ := (p.indexOf_unbroken t.var).cases
    · rw [hi]
      exact Outcome.unbroken_ok _
    · rw [he]
      cases e <;> exact Outcome.unbroken_refused _

theorem resolve_unbroken (p : Problem) (l : Option Linear) : Outcome.Unbroken (p.resolve l) := by
  rw [resolve_eq]
  exact Outcome.Unbroken.mapM fun t _ => p.resolveTerm_unbroken t

namespace Consistent

variable (hp : p.Consistent)
include hp

theorem indexOf_eq_ok_iff_idxOf {h : Handle kind} {i : Nat} :
    p.indexOf h = .ok i ↔ h ∈ p.handles kind ∧ i = (p.handles kind).idxOf h := by
  rw [hp.indexOf_eq_ok_iff, List.getElem?_eq_some_iff]
  constructor
  · rintro ⟨hi, rfl⟩
    exact ⟨List.getElem_mem hi, ((hp.handles_nodup kind).idxOf_getElem i hi).symm⟩
  · rintro ⟨hm, rfl⟩
    exact ⟨List.idxOf_lt_length_of_mem hm, List.getElem_idxOf _⟩

theorem indexOf_of_mem {h : Handle kind} (hm : h ∈ p.handles kind) :
    p.indexOf h = .ok ((p.handles kind).idxOf h) := hp.indexOf_eq_ok_iff_idxOf.mpr ⟨hm, rfl⟩

theorem resolveTerm_eq_ok_iff (t : Term) (e : Entry) :
    p.resolveTerm t = .ok e ↔
      (t.coefficient.isNaN = false ∧ t.var ∈ p.vars) ∧ e = p.entryOf t := by
  unfold resolveTerm
  by_cases hn : t.coefficient.isNaN = true
  · rw [if_pos hn]
    constructor
    · intro h
      cases h
    · rintro ⟨⟨h, -⟩, -⟩
      rw [hn] at h
      cases h
  · rw [if_neg hn]
    by_cases hv : t.var ∈ p.vars
    · have hi : p.indexOf t.var = .ok (p.vars.idxOf t.var) := hp.indexOf_of_mem hv
      rw [hi]
      constructor
      · intro h
        exact ⟨⟨Bool.eq_false_iff.mpr hn, hv⟩, (Except.ok.inj h).symm⟩
      · rintro ⟨-, rfl⟩
        rfl
    · obtain ⟨i, hi⟩ | ⟨e', he⟩ := (p.indexOf_unbroken t.var).cases
      · exact absurd (hp.indexOf_eq_ok_iff_idxOf.mp hi).1 hv
      · rw [he]
        cases e' <;> simp [hv, Outcome.refuseFault, Outcome.refuse]

theorem resolve_eq_ok_iff {entries : List Entry} :
    p.resolve l = .ok entries ↔ p.Takes l ∧ entries = p.rowOf l := by
  rw [resolve_eq, Outcome.mapM_eq_ok_iff hp.resolveTerm_eq_ok_iff]
  rfl

theorem resolve_of_takes (hl : p.Takes l) : p.resolve l = .ok (p.rowOf l) :=
  hp.resolve_eq_ok_iff.mpr ⟨hl, rfl⟩

end Consistent

theorem Consistent.rowOf_proper (hp : p.Consistent) (hl : p.Takes l) :
    Entry.Proper p.tableau.columns.length (p.rowOf l) where
  distinct := by
    have hd := Linear.nodup_termsOf l
    rw [rowOf, List.map_map]
    rw [List.nodup_map_iff_inj_on (hd.of_map _)]
    intro a ha b hb hab
    apply List.inj_on_of_nodup_map hd ha hb
    exact (List.idxOf_inj (hl a ha).2).mp hab
  inRange := by
    rw [rowOf, List.forall_mem_map]
    intro t ht
    rw [← hp.length_vars]
    exact List.idxOf_lt_length_of_mem (hl t ht).2
  nonzero := by
    rw [rowOf, List.forall_mem_map]
    intro t ht
    exact Linear.nonzero_of_mem_termsOf ht
  number := by
    rw [rowOf, List.forall_mem_map]
    intro t ht
    exact (hl t ht).1

section Spreading

def placed (entries : List Entry) (xs : List Float) : List Float :=
  entries.foldl (fun xs e => xs.set e.column e.coefficient) xs

variable {entries : List Entry} {xs : List Float}

@[simp]
theorem length_placed (entries : List Entry) (xs : List Float) :
    (placed entries xs).length = xs.length := by
  induction entries generalizing xs with
  | nil => rfl
  | cons e entries ih => exact (ih _).trans (List.length_set ..)

theorem spread_eq (h : ∀ e ∈ entries, e.column < xs.length) :
    spread entries xs = .ok (placed entries xs) := by
  induction entries generalizing xs with
  | nil => rfl
  | cons e entries ih =>
    rw [List.forall_mem_cons] at h
    rw [spread, if_pos h.1, ih (by simpa using h.2)]
    rfl

theorem placed_getElem?_of_notMem {i : Nat} (h : ∀ e ∈ entries, e.column ≠ i) :
    (placed entries xs)[i]? = xs[i]? := by
  induction entries generalizing xs with
  | nil => rfl
  | cons e entries ih =>
    rw [List.forall_mem_cons] at h
    exact (ih h.2).trans (List.getElem?_set_ne h.1)

theorem placed_getElem?_of_mem (hd : (entries.map (·.column)).Nodup)
    (hr : ∀ e ∈ entries, e.column < xs.length) {e : Entry} (he : e ∈ entries) :
    (placed entries xs)[e.column]? = some e.coefficient := by
  induction entries generalizing xs with
  | nil => cases he
  | cons d entries ih =>
    rw [List.map_cons, List.nodup_cons, List.mem_map] at hd
    rw [List.forall_mem_cons] at hr
    rcases List.mem_cons.mp he with rfl | he
    · have hn : ∀ d ∈ entries, d.column ≠ e.column := fun d hm hde => hd.1 ⟨d, hm, hde⟩
      exact (placed_getElem?_of_notMem hn).trans (List.getElem?_set_self hr.1)
    · exact ih hd.2 (by simpa using hr.2) he

end Spreading

theorem Consistent.placed_rowOf (hp : p.Consistent) (hl : p.Takes l) :
    placed (p.rowOf l) (List.replicate p.columns.size 0) = p.vars.map (Linear.share l) := by
  have hrow := hp.rowOf_proper hl
  have hlen : p.vars.length = p.columns.size := length_handles p .var
  rw [← hp.size_columns] at hrow
  apply List.ext_getElem?
  intro i
  rw [List.getElem?_map]
  by_cases hi : i < p.vars.length
  · have hv := List.getElem?_eq_getElem hi
    rw [hv, Option.map_some]
    by_cases ht : ∃ t ∈ Linear.termsOf l, t.var = p.vars[i]
    · obtain ⟨t, ht, htv⟩ := ht
      have hc : (p.entryOf t).column = i := by
        rw [entryOf, htv]
        exact (hp.handles_nodup .var).idxOf_getElem i hi
      rw [← htv, Linear.share_of_mem ht, ← hc]
      exact placed_getElem?_of_mem hrow.distinct (by simpa using hrow.inRange)
        (List.mem_map_of_mem ht)
    · rw [not_exists] at ht
      rw [placed_getElem?_of_notMem, List.getElem?_replicate, if_pos (hlen ▸ hi),
        Linear.share_eq_zero]
      · intro t hm htv
        exact ht t ⟨hm, htv⟩
      · rw [rowOf, List.forall_mem_map]
        rintro t hm rfl
        exact ht t ⟨hm, (List.getElem_idxOf (List.idxOf_lt_length_of_mem (hl t hm).2)).symm⟩
  · have hj : (placed (p.rowOf l) (List.replicate p.columns.size 0)).length ≤ i := by
      rw [length_placed, List.length_replicate]
      omega
    rw [List.getElem?_eq_none hj, List.getElem?_eq_none (by omega)]
    rfl

theorem Consistent.spread_rowOf (hp : p.Consistent) (hl : p.Takes l) :
    spread (p.rowOf l) (List.replicate p.columns.size 0) =
      .ok (p.vars.map (Linear.share l)) := by
  rw [spread_eq, hp.placed_rowOf hl]
  have hrow := (hp.rowOf_proper hl).inRange
  rw [← hp.size_columns] at hrow
  simpa using hrow

theorem Takes.share_number (hl : p.Takes l) (v : Variable) : (Linear.share l v).isNaN = false := by
  by_cases ht : ∃ t ∈ Linear.termsOf l, t.var = v
  · obtain ⟨t, ht, rfl⟩ := ht
    rw [Linear.share_of_mem ht]
    exact (hl t ht).1
  · rw [Linear.share_eq_zero fun t hm htv => ht ⟨t, hm, htv⟩]
    rfl

end Problem

end LinearProgram
