import LinearProgram.Table
import LinearProgram.Proofs.Edit
import Mathlib.Data.List.Nodup

namespace LinearProgram.Table

def capacity : Nat := UInt32.size

/-- Slots, vacant slots and order agree with one another, on entities with the given names. -/
structure Arranged (t : Table) (names : List String) : Prop where
  order_length : t.order.length = names.length
  resolves : ∀ i key, t.order[i]? = some key →
    ∃ name, names[i]? = some name ∧ t.tenant? key = some ⟨i, name⟩
  ordered : ∀ (s : Nat) (slot : Slot) (tenant : Tenant),
    t.slots[s]? = some slot → slot.tenant = some tenant →
      t.order[tenant.index]? = some ⟨.ofNat s, slot.generation⟩
  vacant_iff : ∀ s : UInt32,
    s ∈ t.vacant ↔ ∃ slot : Slot, t.slots[s.toNat]? = some slot ∧ slot.tenant = none
  vacant_nodup : t.vacant.Nodup
  slots_length : t.slots.length ≤ capacity

structure Lists (t : Table) (names : List String) : Prop extends Arranged t names where
  registered : t.names.Perm names
  distinct : names.Nodup
  nonempty : "" ∉ names

variable {t : Table} {names : List String} {key : Key} {tenant : Tenant}

theorem key_eq_iff {k₁ k₂ : Key} :
    k₁ = k₂ ↔ k₁.slot = k₂.slot ∧ k₁.generation = k₂.generation := by
  cases k₁
  cases k₂
  rw [Key.mk.injEq]

theorem tenant?_eq_some_iff : t.tenant? key = some tenant ↔
    t.slots[key.slot.toNat]? = some ⟨key.generation, some tenant⟩ := by
  unfold tenant?
  cases hs : t.slots[key.slot.toNat]? with
  | none => simp
  | some slot =>
    obtain ⟨generation, occupant⟩ := slot
    by_cases hg : generation = key.generation <;> simp [hg]

theorem toNat_ofNat_slot {s : Nat} {slot : Slot} (h : t.slots[s]? = some slot)
    (hl : t.slots.length ≤ capacity) : (UInt32.ofNat s).toNat = s := by
  have hs : s < t.slots.length := (List.getElem?_eq_some_iff.mp h).1
  rw [UInt32.toNat_ofNat']
  exact Nat.mod_eq_of_lt (Nat.lt_of_lt_of_le hs hl)

namespace Arranged

variable (h : t.Arranged names)
include h

theorem order_of_tenant (hk : t.tenant? key = some tenant) : t.order[tenant.index]? = some key := by
  have ho := h.ordered _ _ _ (tenant?_eq_some_iff.mp hk) rfl
  rwa [UInt32.ofNat_toNat] at ho

theorem name_of_tenant (hk : t.tenant? key = some tenant) :
    names[tenant.index]? = some tenant.name := by
  obtain ⟨name, hn, ht⟩ := h.resolves _ _ (h.order_of_tenant hk)
  rw [hk, Option.some.injEq] at ht
  rw [hn, ht]

theorem slots_nodup : (t.order.map (·.slot)).Nodup := by
  rw [List.nodup_iff_injective_get]
  intro i j hij
  have hi : i < t.order.length := by simpa using i.isLt
  have hj : j < t.order.length := by simpa using j.isLt
  obtain ⟨n, -, hn⟩ := h.resolves i t.order[i] (List.getElem?_eq_getElem hi)
  obtain ⟨m, -, hm⟩ := h.resolves j t.order[j] (List.getElem?_eq_getElem hj)
  rw [tenant?_eq_some_iff] at hn hm
  have hslot : t.order[i].slot = t.order[j].slot := by simpa using hij
  rw [hslot, hm] at hn
  simp only [Option.some.injEq, Slot.mk.injEq, Tenant.mk.injEq] at hn
  exact Fin.ext hn.2.1.symm

theorem order_nodup : t.order.Nodup := h.slots_nodup.of_map

theorem indexOf?_eq_some_iff {i : Nat} : t.indexOf? key = some i ↔ t.order[i]? = some key := by
  rw [indexOf?, Option.map_eq_some_iff]
  constructor
  · rintro ⟨tenant, ht, rfl⟩
    exact h.order_of_tenant ht
  · intro ho
    obtain ⟨name, -, ht⟩ := h.resolves i key ho
    exact ⟨_, ht, rfl⟩

theorem nameOf?_eq {i : Nat} (ho : t.order[i]? = some key) : t.nameOf? key = names[i]? := by
  obtain ⟨name, hn, ht⟩ := h.resolves i key ho
  rw [nameOf?, ht, hn]
  rfl

theorem length_slots : t.slots.length = t.order.length + t.vacant.length := by
  have hperm : ((t.order.map (·.slot)) ++ t.vacant).map UInt32.toNat |>.Perm
      (List.range t.slots.length) := by
    rw [List.perm_ext_iff_of_nodup _ List.nodup_range]
    · intro s
      rw [List.mem_range, List.mem_map]
      constructor
      · rintro ⟨u, hu, rfl⟩
        rcases List.mem_append.mp hu with hu | hu
        · obtain ⟨k, hk, rfl⟩ := List.mem_map.mp hu
          obtain ⟨i, hi⟩ := List.mem_iff_getElem?.mp hk
          obtain ⟨n, -, hn⟩ := h.resolves i k hi
          exact (List.getElem?_eq_some_iff.mp (tenant?_eq_some_iff.mp hn)).1
        · obtain ⟨slot, hs, -⟩ := (h.vacant_iff u).mp hu
          exact (List.getElem?_eq_some_iff.mp hs).1
      · intro hs
        have hslot := List.getElem?_eq_getElem hs
        have hu := toNat_ofNat_slot hslot h.slots_length
        refine ⟨.ofNat s, List.mem_append.mpr ?_, hu⟩
        cases ho : t.slots[s].tenant with
        | none => exact .inr ((h.vacant_iff _).mpr ⟨_, by rw [hu]; exact hslot, ho⟩)
        | some tenant =>
          have hk := h.ordered s _ tenant hslot ho
          exact .inl (List.mem_map.mpr ⟨_, List.mem_of_getElem? hk, rfl⟩)
    · refine List.Nodup.map (fun a b => UInt32.toNat_inj.mp) (List.nodup_append'.mpr ?_)
      refine ⟨h.slots_nodup, h.vacant_nodup, ?_⟩
      intro u hu hv
      obtain ⟨k, hk, rfl⟩ := List.mem_map.mp hu
      obtain ⟨i, hi⟩ := List.mem_iff_getElem?.mp hk
      obtain ⟨n, -, hn⟩ := h.resolves i k hi
      obtain ⟨slot, hs, hnone⟩ := (h.vacant_iff _).mp hv
      rw [tenant?_eq_some_iff, hs, Option.some.injEq] at hn
      simp [hn] at hnone
  have hl := hperm.length_eq
  simpa using hl.symm

end Arranged

namespace Lists

variable (h : t.Lists names)
include h

theorem mem_names_iff {name : String} : name ∈ t.names ↔ name ∈ names := h.registered.mem_iff

theorem isNameAvailable_iff {name : String} :
    t.isNameAvailable name = true ↔ name ≠ "" ∧ name ∉ names := by
  simp [isNameAvailable, h.mem_names_iff]

end Lists

end LinearProgram.Table
