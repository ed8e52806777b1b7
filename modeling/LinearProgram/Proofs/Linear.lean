import LinearProgram.Linear
import LinearProgram.Proofs.Number.Double
import LinearProgram.Proofs.Registry

namespace LinearProgram.Linear

def tally (sum : Option Float) (x : Float) : Option Float :=
  if x == 0 then sum
  else if sum.getD 0 + x == 0 then none
  else some (sum.getD 0 + x)

def sharesOf (v : Variable) (ts : List Term) : List Float :=
  (ts.filter (·.var = v)).map (·.coefficient)

theorem ext_entries {l m : Linear} (h : l.coefficients.entries = m.coefficients.entries) :
    l = m := by
  obtain ⟨⟨le, hl⟩, hl'⟩ := l
  obtain ⟨⟨me, hm⟩, hm'⟩ := m
  cases h
  rfl

theorem coefficient?_set (l : Linear) (x : Float) (v w : Variable) :
    (l.set x v).coefficient? w =
      if w = v then (if x == 0 then none else some x) else l.coefficient? w := by
  unfold set coefficient?
  by_cases hx : (x == 0) = true
  · simp only [hx, ↓reduceDIte, ↓reduceIte, erase, Registry.find?_erase]
  · simp only [hx, ↓reduceDIte, Bool.false_eq_true, ↓reduceIte, Registry.find?_insert]

theorem coefficient?_add (l : Linear) (t : Term) (v : Variable) :
    (l.add t).coefficient? v =
      if v = t.var then tally (l.coefficient? v) t.coefficient else l.coefficient? v := by
  unfold add tally
  by_cases hx : (t.coefficient == 0) = true
  · simp only [hx, ↓reduceIte, ite_self]
  · rw [if_neg hx, if_neg hx, coefficient?_set]
    by_cases hv : v = t.var
    · subst hv
      rfl
    · rw [if_neg hv, if_neg hv]

theorem coefficient?_addAll (l : Linear) (ts : List Term) (v : Variable) :
    (l.addAll ts).coefficient? v = (sharesOf v ts).foldl tally (l.coefficient? v) := by
  induction ts generalizing l with
  | nil => rfl
  | cons t ts ih =>
    change ((l.add t).addAll ts).coefficient? v = _
    rw [ih, coefficient?_add]
    by_cases hv : v = t.var
    · simp [sharesOf, hv]
    · simp [sharesOf, hv, Ne.symm hv]

theorem coefficient?_ofTerms (ts : List Term) (v : Variable) :
    (ofTerms ts).coefficient? v = (sharesOf v ts).foldl tally none := coefficient?_addAll _ _ _

theorem mem_terms {l : Linear} {t : Term} :
    t ∈ l.terms ↔ l.coefficient? t.var = some t.coefficient := by
  obtain ⟨x, v⟩ := t
  rw [coefficient?, Registry.find?_eq_some_iff]
  simp [terms]

theorem vars_eq_map_terms (l : Linear) : l.vars = l.terms.map (·.var) := by
  simp [vars, terms, Registry.keys]

theorem vars_nodup (l : Linear) : l.vars.Nodup := l.coefficients.nodup

theorem mem_vars {l : Linear} {v : Variable} : v ∈ l.vars ↔ ∃ x, l.coefficient? v = some x := by
  rw [vars, Registry.mem_keys]
  exact exists_congr fun x => Registry.find?_eq_some_iff.symm

theorem nonzero_of_mem_terms {l : Linear} {t : Term} (h : t ∈ l.terms) :
    (t.coefficient == 0) = false := by
  obtain ⟨e, he, rfl⟩ := List.mem_map.mp h
  exact l.nonzero e he

theorem mem_vars_add {l : Linear} {t : Term} {v : Variable} (h : v ∈ (l.add t).vars) :
    v ∈ l.vars ∨ v = t.var := by
  obtain ⟨x, hx⟩ := mem_vars.mp h
  rw [coefficient?_add] at hx
  by_cases hv : v = t.var
  · exact .inr hv
  · rw [if_neg hv] at hx
    exact .inl (mem_vars.mpr ⟨x, hx⟩)

theorem mem_vars_addAll {l : Linear} {ts : List Term} {v : Variable} (h : v ∈ (l.addAll ts).vars) :
    v ∈ l.vars ∨ ∃ t ∈ ts, v = t.var := by
  induction ts generalizing l with
  | nil => exact .inl h
  | cons t ts ih =>
    rcases ih (l := l.add t) h with h | ⟨s, hs, rfl⟩
    · rcases mem_vars_add h with h | rfl
      · exact .inl h
      · exact .inr ⟨t, by simp, rfl⟩
    · exact .inr ⟨s, List.mem_cons_of_mem _ hs, rfl⟩

theorem terms_add_fresh {l : Linear} {t : Term} (hv : t.var ∉ l.vars) :
    (l.add t).terms = l.terms ++ if t.coefficient == 0 then [] else [t] := by
  by_cases hx : (t.coefficient == 0) = true
  · simp [add, hx]
  · have hnone : l.coefficient? t.var = none := Registry.find?_eq_none_iff.mpr hv
    have hsum : (l.coefficient? t.var).getD 0 + t.coefficient = t.coefficient := by
      rw [hnone]
      exact Double.zero_add (Bool.eq_false_iff.mpr hx)
    rw [add, if_neg hx, hsum, set, dif_neg hx, terms, Registry.entries_insert_of_notMem hv]
    simp [terms, hx]

theorem terms_addAll_fresh {l : Linear} {ts : List Term} (hd : (ts.map (·.var)).Nodup)
    (hl : ∀ t ∈ ts, t.var ∉ l.vars) :
    (l.addAll ts).terms = l.terms ++ ts.filter fun t => !(t.coefficient == 0) := by
  induction ts generalizing l with
  | nil => simp [addAll]
  | cons t ts ih =>
    rw [List.map_cons, List.nodup_cons, List.mem_map] at hd
    change ((l.add t).addAll ts).terms = _
    rw [ih hd.2, terms_add_fresh (hl t (by simp))]
    · by_cases hx : (t.coefficient == 0) = true <;> simp [hx]
    · intro s hs hmem
      rcases mem_vars_add hmem with h | h
      · exact hl s (List.mem_cons_of_mem _ hs) h
      · exact hd.1 ⟨s, hs, h⟩

theorem terms_ofTerms_distinct {ts : List Term} (hd : (ts.map (·.var)).Nodup)
    (hx : ∀ t ∈ ts, (t.coefficient == 0) = false) : (ofTerms ts).terms = ts := by
  rw [ofTerms, terms_addAll_fresh hd (by simp [vars, empty, Registry.keys, Registry.empty])]
  have hf : ts.filter (fun t => !(t.coefficient == 0)) = ts := by
    rw [List.filter_eq_self]
    intro t ht
    simp [hx t ht]
  rw [hf]
  rfl

theorem ofTerms_terms (l : Linear) : ofTerms l.terms = l := by
  have h : (ofTerms l.terms).terms = l.terms :=
    terms_ofTerms_distinct (vars_eq_map_terms l ▸ l.vars_nodup) fun t ht => nonzero_of_mem_terms ht
  apply ext_entries
  have hinj : Function.Injective fun e : Variable × Float => (⟨e.2, e.1⟩ : Term) := by
    intro a b hab
    cases a
    cases b
    simpa [and_comm] using hab
  exact hinj.list_map h

section Optional

variable {l : Option Linear}

def termsOf (l : Option Linear) : List Term := (l.map (·.terms)).getD []

def share (l : Option Linear) (v : Variable) : Float := (l.bind (·.coefficient? v)).getD 0

theorem nodup_termsOf (l : Option Linear) : ((termsOf l).map (·.var)).Nodup := by
  cases l with
  | none => exact List.nodup_nil
  | some l => exact l.vars_eq_map_terms ▸ l.vars_nodup

theorem nonzero_of_mem_termsOf {t : Term} (ht : t ∈ termsOf l) :
    (t.coefficient == 0) = false := by
  cases l with
  | none => exact absurd ht (List.not_mem_nil)
  | some l => exact nonzero_of_mem_terms ht

theorem share_of_mem {t : Term} (ht : t ∈ termsOf l) :
    share l t.var = t.coefficient := by
  cases l with
  | none => cases ht
  | some l => simp [share, mem_terms.mp ht]

theorem share_eq_zero {v : Variable} (hv : ∀ t ∈ termsOf l, t.var ≠ v) :
    share l v = 0 := by
  cases l with
  | none => rfl
  | some l =>
    cases hc : l.coefficient? v with
    | none => simp [share, hc]
    | some x => exact absurd rfl (hv ⟨x, v⟩ (mem_terms.mpr hc))

end Optional

end LinearProgram.Linear
