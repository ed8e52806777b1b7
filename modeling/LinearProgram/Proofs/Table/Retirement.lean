import LinearProgram.Proofs.Table.Change

namespace LinearProgram.Table

def generations : Nat := UInt32.size

def Retired (t : Table) (n : Nat) (key : Key) : Prop :=
  ∃ slot, t.slots[key.slot.toNat]? = some slot ∧ slot.generation ≠ key.generation ∧
    (slot.generation - key.generation).toNat ≤ n

variable {t : Table} {names : List String} {key : Key} {tenant : Tenant} {m n : Nat}

theorem toNat_next_sub (g k : UInt32) (h : (g - k).toNat + 1 < generations) :
    (g + 1 - k).toNat = (g - k).toNat + 1 := by
  have hnext : g + 1 - k = g - k + 1 := by
    rw [UInt32.sub_eq_add_neg, UInt32.sub_eq_add_neg, UInt32.add_assoc, UInt32.add_comm 1,
      ← UInt32.add_assoc]
  rw [hnext, UInt32.toNat_add]
  exact Nat.mod_eq_of_lt h

namespace Retired

theorem mono (h : t.Retired m key) (hmn : m ≤ n) : t.Retired n key := by
  obtain ⟨slot, hs, hg, hle⟩ := h
  exact ⟨slot, hs, hg, Nat.le_trans hle hmn⟩

theorem tenant? (h : t.Retired n key) : t.tenant? key = none := by
  obtain ⟨slot, hs, hg, -⟩ := h
  simp only [Table.tenant?, hs, hg, ↓reduceIte]

theorem notMem_order (hl : t.Lists names) (h : t.Retired n key) : key ∉ t.order := by
  intro hm
  obtain ⟨i, hi⟩ := List.mem_iff_getElem?.mp hm
  obtain ⟨name, -, ht⟩ := hl.resolves i key hi
  rw [h.tenant?] at ht
  cases ht

theorem entered (hl : t.Lists names) (hroom : t.size < capacity) (h : t.Retired n key)
    (name : String) : (t.entered name).Retired n key := by
  obtain ⟨slot, hs, hg, hle⟩ := h
  by_cases hslot : key.slot.toNat = t.nextKey.slot.toNat
  · rw [hslot] at hs
    have hgeneration : t.nextKey.generation = slot.generation := by
      rw [hl.generation_nextKey hroom, generationAt, hs]
      rfl
    refine ⟨⟨t.nextKey.generation, some ⟨t.order.length, name⟩⟩, ?_, ?_, ?_⟩
    · rw [Table.entered, hl.seats_getElem? hroom, if_pos hslot]
    · rwa [hgeneration]
    · rwa [hgeneration]
  · refine ⟨slot, ?_, hg, hle⟩
    rw [Table.entered, hl.seats_getElem? hroom, if_neg hslot, hs]

theorem vacate {other : Key} (hk : t.tenant? other = some tenant) (h : t.Retired n key)
    (hn : n + 1 < generations) : (t.vacate other tenant).Retired (n + 1) key := by
  obtain ⟨slot, hs, hg, hle⟩ := h
  by_cases hslot : key.slot.toNat = other.slot.toNat
  · have hgeneration : slot.generation = other.generation := by
      rw [tenant?_eq_some_iff, ← hslot, hs, Option.some.injEq] at hk
      rw [hk]
    have hnext := toNat_next_sub other.generation key.generation (by
      rw [← hgeneration]
      omega)
    rw [← hgeneration] at hnext
    refine ⟨⟨slot.generation + 1, none⟩, ?_, ?_, ?_⟩
    · rw [vacate_getElem? hk, if_pos hslot, hgeneration]
    · intro he
      have hzero : (slot.generation + 1 - key.generation).toNat = 0 := by
        rw [show slot.generation + 1 = key.generation from he, UInt32.sub_self]
        rfl
      omega
    · change (slot.generation + 1 - key.generation).toNat ≤ n + 1
      omega
  · refine ⟨slot.closed tenant.index, ?_, hg, Nat.le_succ_of_le hle⟩
    rw [vacate_getElem? hk, if_neg hslot, hs]
    rfl

end Retired

theorem retired_vacate (hk : t.tenant? key = some tenant) : (t.vacate key tenant).Retired 1 key := by
  refine ⟨⟨key.generation + 1, none⟩, ?_, ?_, ?_⟩
  · rw [vacate_getElem? hk, if_pos rfl]
  · intro he
    have h := toNat_next_sub key.generation key.generation (by
      rw [UInt32.sub_self]
      decide)
    rw [show key.generation + 1 = key.generation from he, UInt32.sub_self] at h
    cases h
  · have h := toNat_next_sub key.generation key.generation (by
      rw [UInt32.sub_self]
      decide)
    rw [UInt32.sub_self] at h
    exact Nat.le_of_eq h

end LinearProgram.Table
