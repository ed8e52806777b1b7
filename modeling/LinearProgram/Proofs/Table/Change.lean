import LinearProgram.Proofs.Table.Listing

namespace LinearProgram

def Tenant.moved (index : Nat) (tenant : Tenant) : Tenant :=
  { tenant with index := if index < tenant.index then tenant.index - 1 else tenant.index }

def Slot.closed (s : Slot) (index : Nat) : Slot :=
  { s with tenant := s.tenant.map (Tenant.moved index) }

namespace Table

def nextKey (t : Table) : Key :=
  match t.vacant with
  | [] => ⟨.ofNat t.slots.length, 0⟩
  | s :: _ => ⟨s, (t.slots[s.toNat]?.map (·.generation)).getD 0⟩

def generationAt (t : Table) (s : UInt32) : UInt32 :=
  (t.slots[s.toNat]?.map (·.generation)).getD 0

def seats (t : Table) (tenant : Tenant) : List Slot :=
  match t.vacant with
  | [] => t.slots ++ [⟨0, some tenant⟩]
  | s :: _ => t.slots.set s.toNat ⟨t.nextKey.generation, some tenant⟩

def entered (t : Table) (name : String) : Table where
  slots := t.seats ⟨t.order.length, name⟩
  vacant := t.vacant.tail
  order := t.order ++ [t.nextKey]
  names := t.names.insert name

def vacate (t : Table) (key : Key) (tenant : Tenant) : Table where
  slots := (t.slots.set key.slot.toNat ⟨key.generation + 1, none⟩).map (·.closed tenant.index)
  vacant := key.slot :: t.vacant
  order := t.order.eraseIdx tenant.index
  names := t.names.erase tenant.name

variable {t : Table} {names : List String} {name : String} {key : Key} {tenant : Tenant}

@[simp]
theorem order_entered (t : Table) (name : String) :
    (t.entered name).order = t.order ++ [t.nextKey] := rfl

theorem size_entered (t : Table) (name : String) : (t.entered name).size = t.size + 1 := by
  simp [size]

theorem size_insert (name : String) (index : Nat) (t : Table) :
    t.size ≤ (Edit.final (insert name index) t).size := by
  unfold Edit.final insert
  simp only [Edit.bind_apply, Edit.get_apply]
  by_cases hi : index = t.order.length
  · rw [if_pos hi]
    cases t.occupy ⟨index, name⟩ with
    | ok r => simp [size]
    | error e => simp
  · rw [if_neg hi]
    simp

namespace Arranged

theorem insert_eq (h : t.Arranged names) (name : String) :
    insert name t.order.length t = .ok t.nextKey (t.entered name) := by
  simp only [insert, occupy, entered, nextKey, seats, Edit.bind_apply, Edit.get_apply, ↓reduceIte]
  cases hv : t.vacant with
  | nil => simp
  | cons s vacant =>
    obtain ⟨slot, hs, -⟩ := (h.vacant_iff s).mp (by simp [hv])
    simp [hs]

theorem slots_length_of_full (h : t.Arranged names) (hv : t.vacant = []) :
    t.slots.length = t.size := by
  rw [h.length_slots, hv, size, List.length_nil, Nat.add_zero]

theorem slot_nextKey (h : t.Arranged names) (hroom : t.size < capacity) (hv : t.vacant = []) :
    t.nextKey.slot.toNat = t.slots.length := by
  have hs := h.slots_length_of_full hv
  simp only [nextKey, hv, UInt32.toNat_ofNat']
  apply Nat.mod_eq_of_lt
  change t.slots.length < capacity
  omega

theorem free_nextKey (h : t.Arranged names) (hroom : t.size < capacity) {slot : Slot}
    (hs : t.slots[t.nextKey.slot.toNat]? = some slot) : slot.tenant = none := by
  cases hv : t.vacant with
  | nil =>
    rw [h.slot_nextKey hroom hv, List.getElem?_eq_none (Nat.le_refl _)] at hs
    cases hs
  | cons s vacant =>
    obtain ⟨free, hf, hnone⟩ := (h.vacant_iff s).mp (by simp [hv])
    have hslot : t.nextKey.slot = s := by simp only [nextKey, hv]
    rw [hslot, hf, Option.some.injEq] at hs
    rw [← hs, hnone]

theorem generation_nextKey (h : t.Arranged names) (hroom : t.size < capacity) :
    t.nextKey.generation = t.generationAt t.nextKey.slot := by
  cases hv : t.vacant with
  | nil =>
    rw [generationAt, h.slot_nextKey hroom hv, List.getElem?_eq_none (Nat.le_refl _)]
    simp [nextKey, hv]
  | cons u vacant => simp only [nextKey, hv, generationAt]

theorem tenant?_nextKey (h : t.Arranged names) (hroom : t.size < capacity) :
    t.tenant? t.nextKey = none := by
  rw [Option.eq_none_iff_forall_ne_some]
  intro tenant ht
  cases h.free_nextKey hroom (tenant?_eq_some_iff.mp ht)

theorem seats_getElem? (h : t.Arranged names) (hroom : t.size < capacity) (tenant : Tenant)
    (s : Nat) : (t.seats tenant)[s]? =
      if s = t.nextKey.slot.toNat then some ⟨t.nextKey.generation, some tenant⟩
      else t.slots[s]? := by
  cases hv : t.vacant with
  | nil =>
    have hg : t.nextKey.generation = 0 := by simp only [nextKey, hv]
    rw [h.slot_nextKey hroom hv, hg]
    simp only [seats, hv]
    by_cases hs : s = t.slots.length
    · simp [hs]
    · rw [if_neg hs]
      by_cases hlt : s < t.slots.length
      · rw [List.getElem?_append_left hlt]
      · rw [List.getElem?_eq_none (by simp; omega), List.getElem?_eq_none (by omega)]
  | cons u vacant =>
    obtain ⟨free, hf, -⟩ := (h.vacant_iff u).mp (by simp [hv])
    have hslot : t.nextKey.slot = u := by simp only [nextKey, hv]
    have hlt : u.toNat < t.slots.length := (List.getElem?_eq_some_iff.mp hf).1
    simp only [seats, hv]
    rw [hslot, List.getElem?_set]
    by_cases hs : u.toNat = s
    · rw [if_pos hs, if_pos hlt, if_pos hs.symm]
    · rw [if_neg hs, if_neg (Ne.symm hs)]

theorem generationAt_entered (h : t.Arranged names) (hroom : t.size < capacity) (name : String)
    (s : UInt32) : (t.entered name).generationAt s = t.generationAt s := by
  rw [generationAt, Table.entered, h.seats_getElem? hroom]
  split
  · rename_i hs
    rw [UInt32.toNat_inj.mp hs, ← h.generation_nextKey hroom]
    rfl
  · rfl

theorem mem_vacant_tail_iff (h : t.Arranged names) {u : UInt32} :
    u ∈ t.vacant.tail ↔ u ∈ t.vacant ∧ u ≠ t.nextKey.slot := by
  have hn := h.vacant_nodup
  unfold nextKey
  cases hv : t.vacant with
  | nil => simp
  | cons s vacant =>
    rw [hv, List.nodup_cons] at hn
    simp only [List.tail_cons, List.mem_cons]
    constructor
    · intro hu
      exact ⟨.inr hu, fun hs => hn.1 (hs ▸ hu)⟩
    · rintro ⟨hu | hu, hs⟩
      · exact absurd hu hs
      · exact hu

theorem length_seats (h : t.Arranged names) (hroom : t.size < capacity) (tenant : Tenant) :
    (t.seats tenant).length ≤ capacity := by
  have hl := h.slots_length
  cases hv : t.vacant with
  | nil =>
    have hs := h.slots_length_of_full hv
    simp only [seats, hv, List.length_append, List.length_singleton]
    omega
  | cons u vacant => simpa [seats, hv] using hl

theorem size_lt_capacity (h : t.Arranged names) (hcap : (t.entered name).slots.length ≤ capacity) :
    t.size < capacity := by
  have hslots := h.length_slots
  have hl := h.slots_length
  cases hv : t.vacant with
  | nil =>
    simp only [Table.entered, seats, hv, List.length_append, List.length_singleton] at hcap
    simp only [hv, List.length_nil] at hslots
    unfold size
    omega
  | cons u vacant =>
    simp only [hv, List.length_cons] at hslots
    unfold size
    omega

theorem tenant?_entered (h : t.Arranged names) (hroom : t.size < capacity) (name : String)
    (key : Key) :
    (t.entered name).tenant? key =
      if key = t.nextKey then some ⟨t.order.length, name⟩ else t.tenant? key := by
  apply Option.ext
  intro tenant
  rw [tenant?_eq_some_iff, entered, h.seats_getElem? hroom]
  by_cases hs : key.slot.toNat = t.nextKey.slot.toNat
  · rw [if_pos hs]
    have hslot := UInt32.toNat_inj.mp hs
    by_cases hk : key = t.nextKey
    · subst hk
      simp
    · have hg : t.nextKey.generation ≠ key.generation := by
        intro hg
        exact hk (key_eq_iff.mpr ⟨hslot, hg.symm⟩)
      rw [if_neg hk, tenant?_eq_some_iff, hs]
      constructor
      · intro h'
        simp only [Option.some.injEq, Slot.mk.injEq] at h'
        exact absurd h'.1 hg
      · intro h'
        cases h.free_nextKey hroom h'
  · have hk : key ≠ t.nextKey := fun hk => hs (by rw [hk])
    rw [if_neg hs, if_neg hk, tenant?_eq_some_iff]

theorem entered (h : t.Arranged names) (hroom : t.size < capacity) (name : String) :
    (t.entered name).Arranged (names ++ [name]) where
  order_length := by simp [h.order_length]
  resolves := by
    intro i key hk
    rw [h.tenant?_entered hroom]
    rw [order_entered, List.getElem?_append] at hk
    by_cases hi : i < t.order.length
    · rw [if_pos hi] at hk
      obtain ⟨old, hold, ht⟩ := h.resolves i key hk
      refine ⟨old, ?_, ?_⟩
      · rw [List.getElem?_append_left (h.order_length ▸ hi), hold]
      · rw [if_neg, ht]
        rintro rfl
        rw [h.tenant?_nextKey hroom] at ht
        cases ht
    · rw [if_neg hi, List.getElem?_singleton] at hk
      split at hk
      · cases hk
        have hl : i = t.order.length := by omega
        subst hl
        exact ⟨name, by simp [h.order_length], by simp⟩
      · cases hk
  ordered := by
    intro s slot tenant hs ht
    rw [Table.entered, h.seats_getElem? hroom] at hs
    rw [order_entered]
    split at hs
    · rename_i hslot
      cases hs
      cases ht
      rw [hslot, UInt32.ofNat_toNat, List.getElem?_concat_length]
    · have hk := h.ordered s slot tenant hs ht
      rwa [List.getElem?_append_left (List.getElem?_eq_some_iff.mp hk).1]
  vacant_iff := by
    intro u
    change u ∈ t.vacant.tail ↔ ∃ slot, (t.seats _)[u.toNat]? = some slot ∧ _
    rw [h.mem_vacant_tail_iff, h.vacant_iff, h.seats_getElem? hroom]
    by_cases hu : u = t.nextKey.slot
    · simp [hu]
    · rw [if_neg fun h => hu (UInt32.toNat_inj.mp h)]
      simp [hu]
  vacant_nodup := h.vacant_nodup.tail
  slots_length := h.length_seats hroom _

end Arranged

theorem Lists.entered (h : t.Lists names) (hroom : t.size < capacity) (hne : name ≠ "")
    (hnew : name ∉ names) : (t.entered name).Lists (names ++ [name]) where
  __ := h.toArranged.entered hroom name
  registered := by
    have hn : name ∉ t.names := fun hm => hnew (h.mem_names_iff.mp hm)
    change (t.names.insert name).Perm _
    rw [List.insert_of_not_mem hn]
    exact (h.registered.cons name).trans (List.perm_append_singleton name names).symm
  distinct := by
    rw [List.nodup_append']
    refine ⟨h.distinct, List.nodup_singleton name, ?_⟩
    intro n hn hm
    rw [List.mem_singleton] at hm
    exact hnew (hm ▸ hn)
  nonempty := by
    rw [List.mem_append, List.mem_singleton]
    rintro (hn | hn)
    · exact h.nonempty hn
    · exact hne hn.symm

theorem eraseIdx_moved {α : Type} (l : List α) {i n : Nat} (hn : n ≠ i) :
    (l.eraseIdx i)[if i < n then n - 1 else n]? = l[n]? := by
  rw [List.getElem?_eraseIdx]
  by_cases hi : i < n
  · rw [if_pos hi, if_neg (by omega)]
    congr 1
    omega
  · rw [if_neg hi, if_pos (by omega)]

theorem mem_later_iff {α : Type} {l : List α} {a : α} {i p : Nat} :
    (a, p) ∈ ((l.eraseIdx i).drop i).zipIdx i ↔ i ≤ p ∧ l[p + 1]? = some a := by
  rw [List.mk_mem_zipIdx_iff_le_and_getElem?_sub]
  refine and_congr_right fun hp => ?_
  rw [List.getElem?_drop, Nat.add_sub_cancel' hp, List.getElem?_eraseIdx, if_neg (by omega)]

theorem nodup_later {l : List Key} (h : (l.map (·.slot)).Nodup) {i : Nat} :
    ((((l.eraseIdx i).drop i).zipIdx i).map fun x => x.1.slot).Nodup := by
  have hsub := ((l.eraseIdx i).drop_sublist i).trans (List.eraseIdx_sublist l i)
  have hmap : (((l.eraseIdx i).drop i).zipIdx i).map (fun x => x.1.slot) =
      ((l.eraseIdx i).drop i).map (·.slot) := by
    rw [← List.zipIdx_map_fst i ((l.eraseIdx i).drop i), List.map_map, List.zipIdx_map_fst]
    rfl
  rw [hmap]
  exact h.sublist (hsub.map _)

theorem foldlM_reseat {slots : List Slot} {ks : List (Key × Nat)}
    (hlt : ∀ x ∈ ks, x.1.slot.toNat < slots.length) (hn : (ks.map fun x => x.1.slot).Nodup) :
    ∃ slots', ks.foldlM (fun slots x => reseat slots x.1 x.2) slots = .ok slots' ∧
      (∀ x ∈ ks, slots'[x.1.slot.toNat]? = slots[x.1.slot.toNat]?.map (Slot.seatedAt x.2)) ∧
      ∀ s, (∀ x ∈ ks, x.1.slot.toNat ≠ s) → slots'[s]? = slots[s]? := by
  induction ks generalizing slots with
  | nil => exact ⟨slots, rfl, nofun, fun _ _ => rfl⟩
  | cons x ks ih =>
    rw [List.forall_mem_cons] at hlt
    rw [List.map_cons, List.nodup_cons] at hn
    have hne {y : Key × Nat} (hy : y ∈ ks) : x.1.slot.toNat ≠ y.1.slot.toNat := fun h =>
      hn.1 (List.mem_map.mpr ⟨y, hy, (UInt32.toNat_inj.mp h).symm⟩)
    have hx := List.getElem?_eq_getElem hlt.1
    have hreseat : reseat slots x.1 x.2 = .ok (slots.set x.1.slot.toNat
        (slots[x.1.slot.toNat].seatedAt x.2)) := by
      simp only [reseat, hx]
    obtain ⟨slots', hrun, hin, hout⟩ := @ih (slots.set x.1.slot.toNat _)
      (fun y hy => by simpa using hlt.2 y hy) hn.2
    refine ⟨slots', ?_, ?_, fun s hs => ?_⟩
    · rw [List.foldlM_cons, hreseat]
      exact hrun
    · rw [List.forall_mem_cons]
      constructor
      · rw [hout _ fun y hy => (hne hy).symm, List.getElem?_set_self hlt.1, hx, Option.map_some]
      · intro y hy
        rw [hin y hy, List.getElem?_set_ne (hne hy)]
    · rw [List.forall_mem_cons] at hs
      rw [hout s hs.2, List.getElem?_set_ne hs.1]

theorem vacate_getElem? (hk : t.tenant? key = some tenant) (s : Nat) :
    (t.vacate key tenant).slots[s]? =
      if s = key.slot.toNat then some ⟨key.generation + 1, none⟩
      else (t.slots[s]?).map (·.closed tenant.index) := by
  have hlt : key.slot.toNat < t.slots.length :=
    (List.getElem?_eq_some_iff.mp (tenant?_eq_some_iff.mp hk)).1
  simp only [vacate, List.getElem?_map, List.getElem?_set]
  by_cases hs : key.slot.toNat = s
  · rw [if_pos hs, if_pos hlt, if_pos hs.symm]
    rfl
  · rw [if_neg hs, if_neg (Ne.symm hs)]

theorem generationAt_vacate (hk : t.tenant? key = some tenant) (s : UInt32) :
    (t.vacate key tenant).generationAt s =
      if key.slot = s then t.generationAt s + 1 else t.generationAt s := by
  rw [generationAt, vacate_getElem? hk]
  by_cases hs : key.slot = s
  · subst hs
    rw [if_pos rfl, if_pos rfl, generationAt, tenant?_eq_some_iff.mp hk]
    rfl
  · rw [if_neg hs, if_neg fun h => hs (UInt32.toNat_inj.mp h).symm, generationAt]
    cases t.slots[s.toNat]? <;> rfl

theorem tenant?_vacate (hk : t.tenant? key = some tenant) (k : Key) :
    (t.vacate key tenant).tenant? k =
      if k.slot = key.slot then none else (t.tenant? k).map (Tenant.moved tenant.index) := by
  unfold tenant?
  rw [vacate_getElem? hk]
  by_cases hs : k.slot = key.slot
  · simp [hs]
  · rw [if_neg hs, if_neg fun h => hs (UInt32.toNat_inj.mp h)]
    cases t.slots[k.slot.toNat]? with
    | none => rfl
    | some slot =>
      by_cases hg : slot.generation = k.generation
      · simp only [Option.map_some, Slot.closed, hg, ↓reduceIte]
      · simp only [Option.map_some, Slot.closed, hg, ↓reduceIte, Option.map_none]

namespace Arranged

theorem slot_ne (h : t.Arranged names) (hk : t.tenant? key = some tenant) {k : Key} {n : Nat}
    (hn : t.order[n]? = some k) (hne : n ≠ tenant.index) : k.slot ≠ key.slot := by
  intro hs
  have ho := h.order_of_tenant hk
  have hnl := (List.getElem?_eq_some_iff.mp hn).1
  have he : (t.order.map (·.slot))[n]? = (t.order.map (·.slot))[tenant.index]? := by
    simp [hn, ho, hs]
  exact hne ((List.getElem?_inj (by simpa using hnl) h.slots_nodup).mp he)

/-- An entity behind the one that goes is told the position that is lower by one. -/
theorem seatedAt_later (h : t.Arranged names) {k : Key} {p : Nat} (hp : tenant.index ≤ p)
    (hm : t.order[p + 1]? = some k) : ∃ slot, t.slots[k.slot.toNat]? = some slot ∧
      slot.seatedAt p = slot.closed tenant.index := by
  obtain ⟨name, -, ht⟩ := h.resolves _ k hm
  refine ⟨_, tenant?_eq_some_iff.mp ht, ?_⟩
  simp only [Slot.seatedAt, Slot.closed, Option.map_some, Tenant.moved]
  rw [if_pos (by omega), Nat.add_sub_cancel]

theorem closed_earlier (h : t.Arranged names) {s : Nat}
    (hs : ∀ k p, tenant.index ≤ p → t.order[p + 1]? = some k → k.slot.toNat ≠ s) :
    t.slots[s]?.map (·.closed tenant.index) = t.slots[s]? := by
  cases hslot : t.slots[s]? with
  | none => rfl
  | some slot =>
    obtain ⟨generation, seated⟩ := slot
    cases seated with
    | none => rfl
    | some τ =>
      have ho := h.ordered s _ τ hslot rfl
      have hle : ¬ tenant.index < τ.index := by
        intro hlt
        refine hs ⟨.ofNat s, generation⟩ (τ.index - 1) (by omega) ?_
          (toNat_ofNat_slot hslot h.slots_length)
        rwa [Nat.sub_add_cancel (by omega)]
      simp only [Option.map_some, Slot.closed, Tenant.moved, if_neg hle]

/-- The loop over the later entities does what the closed form says: each of them is in a slot of
its own, so it is told once where it stands. -/
theorem reindex_eq (h : t.Arranged names) (hk : t.tenant? key = some tenant) :
    reindex (t.slots.set key.slot.toNat ⟨key.generation + 1, none⟩)
      (t.order.eraseIdx tenant.index) tenant.index = .ok (t.vacate key tenant).slots := by
  have hlt : ∀ x ∈ ((t.order.eraseIdx tenant.index).drop tenant.index).zipIdx tenant.index,
      x.1.slot.toNat < (t.slots.set key.slot.toNat ⟨key.generation + 1, none⟩).length := by
    rintro ⟨k, p⟩ hx
    obtain ⟨hp, hm⟩ := mem_later_iff.mp hx
    obtain ⟨slot, hslot, -⟩ := h.seatedAt_later hp hm
    rw [List.length_set]
    exact (List.getElem?_eq_some_iff.mp hslot).1
  obtain ⟨slots, hrun, hin, hout⟩ := foldlM_reseat hlt (nodup_later h.slots_nodup)
  rw [reindex, hrun, Except.ok.injEq]
  refine List.ext_getElem? fun s => ?_
  rw [vacate_getElem? hk]
  by_cases hs : ∃ k p, tenant.index ≤ p ∧ t.order[p + 1]? = some k ∧ k.slot.toNat = s
  · obtain ⟨k, p, hp, hm, rfl⟩ := hs
    obtain ⟨slot, hslot, hseated⟩ := h.seatedAt_later hp hm
    have hne : k.slot.toNat ≠ key.slot.toNat := fun hs =>
      h.slot_ne hk hm (by omega) (UInt32.toNat_inj.mp hs)
    rw [hin (k, p) (mem_later_iff.mpr ⟨hp, hm⟩), List.getElem?_set_ne hne.symm, if_neg hne, hslot,
      Option.map_some, Option.map_some, hseated]
  · push Not at hs
    rw [hout s fun ⟨k, p⟩ hx => hs k p (mem_later_iff.mp hx).1 (mem_later_iff.mp hx).2,
      List.getElem?_set]
    by_cases hkey : key.slot.toNat = s
    · have hlt := (List.getElem?_eq_some_iff.mp (tenant?_eq_some_iff.mp hk)).1
      rw [if_pos hkey, if_pos (hkey ▸ hlt), if_pos hkey.symm]
    · rw [if_neg hkey, if_neg (Ne.symm hkey), h.closed_earlier hs]

theorem remove_eq (h : t.Arranged names) (key : Key) :
    remove key t = match t.tenant? key with
      | none => .ok none t
      | some tenant => .ok (some tenant.index) (t.vacate key tenant) := by
  simp only [remove, Edit.bind_apply, Edit.get_apply]
  cases hk : t.tenant? key with
  | none => rfl
  | some tenant =>
    simp only [h.order_of_tenant hk, h.reindex_eq hk, ↓reduceIte]
    rfl

theorem vacate (h : t.Arranged names) (hk : t.tenant? key = some tenant) :
    (t.vacate key tenant).Arranged (names.eraseIdx tenant.index) where
  order_length := by
    have ho := (List.getElem?_eq_some_iff.mp (h.order_of_tenant hk)).1
    have hl := h.order_length
    simp only [Table.vacate]
    rw [List.length_eraseIdx_of_lt ho, List.length_eraseIdx_of_lt (hl ▸ ho), hl]
  resolves := by
    intro j k hj
    -- the position that `j` had before
    obtain ⟨n, hn, hni, hjn⟩ : ∃ n, t.order[n]? = some k ∧ n ≠ tenant.index ∧
        j = if tenant.index < n then n - 1 else n := by
      simp only [Table.vacate, List.getElem?_eraseIdx] at hj
      split at hj
      · exact ⟨j, hj, by omega, by rw [if_neg (by omega)]⟩
      · exact ⟨j + 1, hj, by omega, by rw [if_pos (by omega)]; omega⟩
    obtain ⟨name, hname, ht⟩ := h.resolves n k hn
    refine ⟨name, ?_, ?_⟩
    · rw [hjn, eraseIdx_moved names hni, hname]
    · rw [tenant?_vacate hk, if_neg (h.slot_ne hk hn hni), ht, hjn]
      rfl
  ordered := by
    intro s slot τ hs ht
    rw [vacate_getElem? hk] at hs
    split at hs
    · cases hs
      cases ht
    · rename_i hslot
      obtain ⟨old, hold, rfl⟩ := Option.map_eq_some_iff.mp hs
      obtain ⟨before, hb, rfl⟩ := Option.map_eq_some_iff.mp ht
      have ho := h.ordered s old before hold hb
      have hne : before.index ≠ tenant.index := by
        intro he
        rw [he, h.order_of_tenant hk, Option.some.injEq] at ho
        apply hslot
        rw [ho]
        exact (toNat_ofNat_slot hold h.slots_length).symm
      exact (eraseIdx_moved t.order hne).trans ho
  vacant_iff := by
    intro u
    rw [vacate_getElem? hk]
    simp only [Table.vacate, List.mem_cons, UInt32.toNat_inj]
    by_cases hu : u = key.slot
    · simp [hu]
    · rw [if_neg hu, h.vacant_iff]
      simp [hu, Slot.closed]
  vacant_nodup := by
    rw [Table.vacate, List.nodup_cons]
    refine ⟨?_, h.vacant_nodup⟩
    intro hv
    obtain ⟨slot, hs, hnone⟩ := (h.vacant_iff _).mp hv
    rw [tenant?_eq_some_iff, hs, Option.some.injEq] at hk
    rw [hk] at hnone
    cases hnone
  slots_length := by simpa [Table.vacate] using h.slots_length

end Arranged

theorem Lists.vacate (h : t.Lists names) (hk : t.tenant? key = some tenant) :
    (t.vacate key tenant).Lists (names.eraseIdx tenant.index) where
  __ := h.toArranged.vacate hk
  registered := by
    have hname := h.name_of_tenant hk
    have hl := (List.getElem?_eq_some_iff.mp hname).1
    have hi : names.idxOf tenant.name = tenant.index := by
      rw [← (List.getElem?_eq_some_iff.mp hname).2]
      exact h.distinct.idxOf_getElem _ hl
    rw [← hi, ← List.erase_eq_eraseIdx_of_idxOf rfl]
    exact h.registered.erase tenant.name
  distinct := h.distinct.eraseIdx _
  nonempty := fun hm => h.nonempty (List.mem_of_mem_eraseIdx hm)

theorem lists_empty : empty.Lists [] where
  order_length := rfl
  resolves := by simp [empty]
  ordered := by simp [empty]
  vacant_iff := by simp [empty]
  vacant_nodup := List.nodup_nil
  slots_length := Nat.zero_le _
  registered := List.Perm.refl _
  distinct := List.nodup_nil
  nonempty := by simp

end Table

end LinearProgram
