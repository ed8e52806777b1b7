import LinearProgram.Proofs.Linear
import LinearProgram.Proofs.Outcome
import Mathlib.Data.List.Dedup

namespace LinearProgram

namespace Registry

variable {κ ν : Type} [DecidableEq κ]

theorem keys_insert (r : Registry κ ν) (k : κ) (v : ν) :
    (r.insert k v).keys = if k ∈ r.keys then r.keys else r.keys ++ [k] := by
  by_cases hk : k ∈ r.keys
  · rw [if_pos hk, keys, entries_insert_of_mem hk, keys_setEntry]
    rfl
  · rw [if_neg hk, keys, entries_insert_of_notMem hk, List.map_append]
    rfl

theorem keys_erase (r : Registry κ ν) (k : κ) : (r.erase k).keys = r.keys.filter (· ≠ k) :=
  (List.filter_map (f := Prod.fst) (p := fun j => decide (j ≠ k)) (l := r.entries)).symm

variable [BEq ν] {a b : Registry κ ν}

theorem beq_iff : (a == b) = true ↔ ∀ k, (a.find? k == b.find? k) = true := by
  have hbeq : (a == b) = (a.size == b.size && a.entries.all fun e =>
    (b.find? e.1).any (e.2 == ·)) := rfl
  have hfound : (a.entries.all fun e => (b.find? e.1).any (e.2 == ·)) = true ↔
      ∀ k x, a.find? k = some x → ∃ y, b.find? k = some y ∧ (x == y) = true := by
    simp only [List.all_eq_true, Option.any_eq_true, Prod.forall, find?_eq_some_iff]
  rw [hbeq, Bool.and_eq_true, hfound, beq_iff_eq]
  constructor
  · rintro ⟨hsize, hall⟩ k
    have hsub : a.keys ⊆ b.keys := by
      intro j hj
      obtain ⟨x, hx⟩ := mem_keys.mp hj
      obtain ⟨y, hy, -⟩ := hall j x (find?_eq_some_iff.mpr hx)
      exact mem_keys.mpr ⟨y, find?_eq_some_iff.mp hy⟩
    -- as many keys, and none twice: so `b` has no other keys
    have hperm : a.keys.Perm b.keys :=
      (a.nodup.subperm hsub).perm_of_length_le (by simpa [keys, size] using hsize.ge)
    cases ha : a.find? k with
    | some x =>
      obtain ⟨y, hy, hxy⟩ := hall k x ha
      rw [hy]
      exact hxy
    | none =>
      rw [find?_eq_none_iff, hperm.mem_iff, ← find?_eq_none_iff] at ha
      rw [ha]
      rfl
  · intro hall
    have hsome (k : κ) : (a.find? k).isSome = (b.find? k).isSome := by
      have hk := hall k
      cases ha : a.find? k <;> cases hb : b.find? k <;> simp_all
    have hmem (k : κ) : k ∈ a.keys ↔ k ∈ b.keys := by
      rw [← not_iff_not, ← find?_eq_none_iff, ← find?_eq_none_iff, ← Option.isNone_iff_eq_none,
        ← Option.isNone_iff_eq_none, ← Option.not_isSome, ← Option.not_isSome, hsome]
    refine ⟨?_, fun k x hx => ?_⟩
    · have hperm : a.keys.Perm b.keys := (List.perm_ext_iff_of_nodup a.nodup b.nodup).mpr hmem
      simpa [keys, size] using hperm.length_eq
    · have hk := hall k
      rw [hx] at hk
      cases hb : b.find? k with
      | none =>
        rw [hb] at hk
        cases hk
      | some y =>
        rw [hb] at hk
        exact ⟨y, rfl, hk⟩

end Registry

namespace Linear

inductive Update where
  | add (t : Term)
  | set (x : Float) (v : Variable)
  | remove (v : Variable)
  | clear

inductive Command where
  | update (u : Update)
  | extend (ts : List Term)
  | collect (ts : List Term)
  | pair (xs : List Float) (vs : List Variable)

namespace Update

def apply (l : Linear) : Update → Linear
  | add t => l.add t
  | set x v => l.set x v
  | remove v => (l.remove v).2
  | clear => empty

def var? : Update → Option Variable
  | add t => some t.var
  | set _ v | remove v => some v
  | clear => none

def outcome (sum : Option Float) : Update → Option Float
  | add t => tally sum t.coefficient
  | set x _ => if x == 0 then none else some x
  | remove _ | clear => none

def after (f : Variable → Option Float) (u : Update) (v : Variable) : Option Float :=
  if u.var?.all (v = ·) then u.outcome (f v) else f v

def arrival? (f : Variable → Option Float) (u : Update) : Option Variable :=
  u.var?.filter fun v => (f v).isNone && (u.outcome (f v)).isSome

end Update

/-- The variables in the order in which they became present, each as often as it did. -/
def arrivals (f : Variable → Option Float) : List Update → List Variable
  | [] => []
  | u :: us => (u.arrival? f).toList ++ arrivals (u.after f) us

namespace Command

def apply (l : Linear) : Command → Linear
  | update u => u.apply l
  | extend ts => l.addAll ts
  | collect ts => ofTerms ts
  | pair xs vs =>
    match ofLists xs vs with
    | .ok m => m
    | .error _ => l

def updates : Command → List Update
  | update u => [u]
  | extend ts => ts.map .add
  | collect ts => .clear :: ts.map .add
  | pair xs vs =>
    if xs.length = vs.length then .clear :: (List.zipWith Term.mk xs vs).map .add else []

end Command

def run (cs : List Command) : Linear := cs.foldl Command.apply empty

variable {l m : Linear} {u : Update} {us : List Update} {v : Variable}

section Coefficients

theorem coefficient?_apply (l : Linear) (u : Update) :
    (u.apply l).coefficient? = u.after l.coefficient? := by
  funext v
  have hafter {w : Variable} (hu : u.var? = some w) : u.after l.coefficient? v =
      if v = w then u.outcome (l.coefficient? v) else l.coefficient? v := by
    simp [Update.after, hu]
  cases u with
  | add t => exact (coefficient?_add l t v).trans (hafter rfl).symm
  | set x w => exact (coefficient?_set l x w v).trans (hafter rfl).symm
  | remove w => exact (Registry.find?_erase _ w v).trans (hafter rfl).symm
  | clear => rfl

theorem coefficient?_foldl_apply (l : Linear) (us : List Update) :
    (us.foldl Update.apply l).coefficient? = us.foldl Update.after l.coefficient? := by
  induction us generalizing l with
  | nil => rfl
  | cons u us ih => rw [List.foldl_cons, List.foldl_cons, ih, coefficient?_apply]

theorem isSome_coefficient? : (l.coefficient? v).isSome = true ↔ v ∈ l.vars := by
  rw [Option.isSome_iff_exists, mem_vars]

end Coefficients

section Order

theorem vars_set (l : Linear) (x : Float) (v : Variable) : (l.set x v).vars =
    if x == 0 then l.vars.filter (· ≠ v) else if v ∈ l.vars then l.vars else l.vars ++ [v] := by
  unfold set
  by_cases hx : (x == 0) = true
  · rw [dif_pos hx, if_pos hx]
    exact Registry.keys_erase _ v
  · rw [dif_neg hx, if_neg hx]
    exact Registry.keys_insert _ v x

theorem filter_arrival (hu : u.var? = some v) :
    ((l.vars ++ (u.arrival? l.coefficient?).toList).filter fun w =>
        (u.after l.coefficient? w).isSome) =
      if (u.outcome (l.coefficient? v)).isSome then
        if v ∈ l.vars then l.vars else l.vars ++ [v]
      else l.vars.filter (· ≠ v) := by
  have hsome (w : Variable) : (u.after l.coefficient? w).isSome = true ↔
      if w = v then (u.outcome (l.coefficient? v)).isSome = true else w ∈ l.vars := by
    by_cases hw : w = v
    · simp [Update.after, hu, hw]
    · simp [Update.after, hu, hw, isSome_coefficient?]
  have harrival : u.arrival? l.coefficient? =
      if v ∉ l.vars ∧ (u.outcome (l.coefficient? v)).isSome = true then some v else none := by
    simp [Update.arrival?, hu, Option.filter, ← isSome_coefficient?]
  by_cases ho : (u.outcome (l.coefficient? v)).isSome = true
  · rw [if_pos ho]
    by_cases hv : v ∈ l.vars
    · rw [if_pos hv, harrival, if_neg fun h => h.1 hv, Option.toList_none, List.append_nil,
        List.filter_eq_self]
      intro w hw
      rw [hsome]
      split
      · exact ho
      · exact hw
    · rw [if_neg hv, harrival, if_pos ⟨hv, ho⟩, Option.toList_some, List.filter_eq_self]
      intro w hw
      rw [hsome]
      split
      · exact ho
      · rename_i hne
        exact (List.mem_append.mp hw).resolve_right fun h => hne (List.mem_singleton.mp h)
  · rw [if_neg ho, harrival, if_neg fun h => ho h.2, Option.toList_none, List.append_nil]
    refine List.filter_congr fun w hw => ?_
    rw [Bool.eq_iff_iff, hsome, decide_eq_true_eq]
    by_cases hwv : w = v
    · simp [hwv, ho]
    · simp [hwv, hw]

theorem vars_apply (l : Linear) (u : Update) : (u.apply l).vars =
    (l.vars ++ (u.arrival? l.coefficient?).toList).filter fun v =>
      (u.after l.coefficient? v).isSome := by
  cases u with
  | add t =>
    rw [filter_arrival rfl]
    change (l.add t).vars = if (tally (l.coefficient? t.var) t.coefficient).isSome then _ else _
    unfold add tally
    by_cases hx : (t.coefficient == 0) = true
    · rw [if_pos hx, if_pos hx]
      split
      · rename_i hv
        rw [if_pos (isSome_coefficient?.mp hv)]
      · rename_i hv
        rw [isSome_coefficient?] at hv
        rw [List.filter_eq_self.mpr]
        intro w hw
        exact decide_eq_true fun he => hv (he ▸ hw)
    · rw [if_neg hx, if_neg hx, vars_set]
      split <;> rfl
  | set x v =>
    rw [filter_arrival rfl]
    change (l.set x v).vars =
      if (if x == 0 then none else some x : Option Float).isSome then _ else _
    rw [vars_set]
    split <;> rfl
  | remove v =>
    rw [filter_arrival rfl]
    exact Registry.keys_erase _ v
  | clear =>
    rw [show (Update.clear.apply l).vars = [] from rfl, eq_comm, List.filter_eq_nil_iff]
    exact fun _ _ => Bool.false_ne_true

theorem filter_dedup_append {α : Type} [DecidableEq α] {keep count : α → Bool} {as bs : List α}
    (h : ∀ a ∈ as, keep a = false → count a = true → a ∈ bs) :
    ((as.filter keep) ++ bs).dedup.filter count = (as ++ bs).dedup.filter count := by
  induction as with
  | nil => rfl
  | cons a as ih =>
    rw [List.forall_mem_cons] at h
    rw [List.cons_append]
    by_cases hk : keep a = true
    · rw [List.filter_cons_of_pos hk, List.cons_append]
      have hmem : a ∈ as.filter keep ++ bs ↔ a ∈ as ++ bs := by simp [hk]
      by_cases ha : a ∈ as ++ bs
      · rw [List.dedup_cons_of_mem ha, List.dedup_cons_of_mem (hmem.mpr ha), ih h.2]
      · rw [List.dedup_cons_of_notMem ha, List.dedup_cons_of_notMem (mt hmem.mp ha),
          List.filter_cons, List.filter_cons, ih h.2]
    · rw [List.filter_cons_of_neg hk, ih h.2]
      by_cases ha : a ∈ as ++ bs
      · rw [List.dedup_cons_of_mem ha]
      · have hcount : ¬ count a = true := fun hc =>
          ha (List.mem_append_right _ (h.1 (by simpa using hk) hc))
        rw [List.dedup_cons_of_notMem ha, List.filter_cons_of_neg hcount]

theorem arrival?_eq_some {f : Variable → Option Float} (hf : f v = none)
    (hv : (u.after f v).isSome = true) : u.arrival? f = some v := by
  cases hu : u.var? with
  | none =>
    have hclear : u = .clear := by cases u <;> first | rfl | cases hu
    subst hclear
    cases hv
  | some w =>
    by_cases hvw : v = w
    · subst hvw
      simp only [Update.after, hu, Option.all_some, decide_true, ↓reduceIte, hf] at hv
      simp [Update.arrival?, hu, Option.filter, hf, hv]
    · simp [Update.after, hu, hvw, hf] at hv

theorem mem_arrivals {f : Variable → Option Float} (hf : f v = none)
    (hv : (us.foldl Update.after f v).isSome = true) : v ∈ arrivals f us := by
  induction us generalizing f with
  | nil =>
    rw [List.foldl_nil, hf] at hv
    cases hv
  | cons u us ih =>
    rw [arrivals, List.mem_append]
    cases ha : u.after f v with
    | none => exact .inr (ih ha hv)
    | some x =>
      left
      rw [Option.mem_toList]
      exact arrival?_eq_some hf (by rw [ha]; rfl)

theorem vars_foldl_apply (l : Linear) (us : List Update) : (us.foldl Update.apply l).vars =
    (l.vars ++ arrivals l.coefficient? us).dedup.filter fun v =>
      (us.foldl Update.after l.coefficient? v).isSome := by
  induction us generalizing l with
  | nil =>
    rw [arrivals, List.append_nil, l.vars_nodup.dedup]
    exact (List.filter_eq_self.mpr fun v hv => isSome_coefficient?.mpr hv).symm
  | cons u us ih =>
    rw [List.foldl_cons, ih, vars_apply, coefficient?_apply, arrivals, ← List.append_assoc]
    refine filter_dedup_append fun v hv hgone hback => ?_
    refine mem_arrivals ?_ hback
    simpa using hgone

end Order

section Commands

theorem apply_command (l : Linear) (c : Command) : c.apply l = c.updates.foldl Update.apply l := by
  have hextend (l : Linear) (ts : List Term) :
      l.addAll ts = (ts.map Update.add).foldl Update.apply l := by
    rw [List.foldl_map]
    rfl
  cases c with
  | update u => rfl
  | extend ts => exact hextend l ts
  | collect ts => exact hextend empty ts
  | pair xs vs =>
    by_cases h : xs.length = vs.length
    · simp only [Command.apply, Command.updates, ofLists, if_pos h, Outcome.pure_eq_ok]
      exact hextend empty _
    · simp only [Command.apply, Command.updates, ofLists, if_neg h]
      rfl

theorem run_eq (cs : List Command) :
    run cs = (cs.flatMap Command.updates).foldl Update.apply empty := by
  unfold run
  generalize empty = l
  induction cs generalizing l with
  | nil => rfl
  | cons c cs ih => rw [List.flatMap_cons, List.foldl_append, List.foldl_cons, ih, apply_command]

end Commands

section Equality

theorem beq_iff : (l == m) = true ↔
    ∀ v, ((l.coefficient? v).getD 0 == (m.coefficient? v).getD 0) = true := by
  have hzero {l : Linear} {v : Variable} {x : Float} (hx : l.coefficient? v = some x) :
      (x == 0) = false := nonzero_of_mem_terms (t := ⟨x, v⟩) (mem_terms.mpr hx)
  have hbeq : (l == m) = (l.coefficients == m.coefficients) := rfl
  rw [hbeq, Registry.beq_iff]
  refine forall_congr' fun v => ?_
  change (l.coefficient? v == m.coefficient? v) = true ↔ _
  cases hl : l.coefficient? v with
  | none =>
    cases hm : m.coefficient? v with
    | none => exact ⟨fun _ => rfl, fun _ => rfl⟩
    | some y =>
      have hy : ((0 : Float) == y) = false := (Double.beq_comm 0 y).trans (hzero hm)
      simp [hy]
  | some x =>
    cases hm : m.coefficient? v with
    | none => simp [hzero hl]
    | some y => exact Iff.rfl

end Equality

/-- The form that the updates make of the empty one: no variable twice, no zero, and the variables
in the order in which they became present last. -/
structure Canonical (l : Linear) (us : List Update) : Prop where
  single : (l.terms.map (·.var)).Nodup
  nonzero : ∀ t ∈ l.terms, (t.coefficient == 0) = false
  coefficients : l.coefficient? = us.foldl Update.after fun _ => none
  order : l.terms.map (·.var) =
    (arrivals (fun _ => none) us).dedup.filter fun v => (l.coefficient? v).isSome

theorem canonical_foldl_apply (us : List Update) : (us.foldl Update.apply empty).Canonical us where
  single := vars_eq_map_terms _ ▸ vars_nodup _
  nonzero := fun _ => nonzero_of_mem_terms
  coefficients := coefficient?_foldl_apply empty us
  order := by
    rw [← vars_eq_map_terms, vars_foldl_apply, coefficient?_foldl_apply]
    rfl

/-- Whatever is done, a form is canonical, and it is equal to those that have its coefficients.
Collecting terms sums those over one variable in their order, whatever stands between them. -/
theorem canonical_of_commands (cs ds : List Command) :
    (run cs).Canonical (cs.flatMap Command.updates) ∧
      ((run cs == run ds) = true ↔
        ∀ v, (((run cs).coefficient? v).getD 0 == ((run ds).coefficient? v).getD 0) = true) ∧
      ∀ ts v, (ofTerms ts).coefficient? v = (sharesOf v ts).foldl tally none ∧
        ∀ ts', ts'.filter (·.var = v) = ts.filter (·.var = v) →
          (ofTerms ts').coefficient? v = (ofTerms ts).coefficient? v := by
  refine ⟨?_, beq_iff, fun ts v => ⟨coefficient?_ofTerms ts v, fun ts' h => ?_⟩⟩
  · rw [run_eq]
    exact canonical_foldl_apply _
  · rw [coefficient?_ofTerms, coefficient?_ofTerms, sharesOf, sharesOf, h]

theorem canonical_readded :
    let x : Variable := ⟨⟨0⟩, ⟨0, 0⟩⟩
    let y : Variable := ⟨⟨0⟩, ⟨1, 0⟩⟩
    let l := run [.collect [⟨1, x⟩, ⟨2, y⟩, ⟨0, x⟩, ⟨-1, x⟩, ⟨3, x⟩], .update (.set 5 y),
      .pair [7] []]
    let m := run [.pair [3, 5] [x, y]]
    l.terms.map (·.var) = [y, x] ∧ m.terms.map (·.var) = [x, y] ∧
      (∀ v, ((l.coefficient? v).getD 0 == (m.coefficient? v).getD 0) = true) ∧
      (ofTerms [⟨1, x⟩, ⟨2, y⟩, ⟨2, x⟩]).coefficient? x =
        (ofTerms [⟨2, y⟩, ⟨1, x⟩, ⟨2, x⟩]).coefficient? x := by
  intro x y l m
  obtain ⟨hl, heq, hcollect⟩ := canonical_of_commands
    [.collect [⟨1, x⟩, ⟨2, y⟩, ⟨0, x⟩, ⟨-1, x⟩, ⟨3, x⟩], .update (.set 5 y), .pair [7] []]
    [.pair [3, 5] [x, y]]
  refine ⟨hl.order.trans (by decide +kernel), by decide +kernel, heq.mp (by decide +kernel), ?_⟩
  exact (hcollect _ x).2 _ (by simp [x, y])

end Linear

end LinearProgram
