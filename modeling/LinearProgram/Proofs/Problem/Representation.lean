import LinearProgram.Proofs.Problem.Runs

namespace LinearProgram

theorem Table.Lists.count_slot {t : Table} {names : List String} (h : t.Lists names) {s : Nat}
    {slot : Slot} {tenant : Tenant} (hs : t.slots[s]? = some slot)
    (ht : slot.tenant = some tenant) : (t.order.map fun k => k.slot.toNat).count s = 1 := by
  have ho := h.ordered s slot tenant hs ht
  have hn := toNat_ofNat_slot hs h.slots_length
  have hinj : Function.Injective UInt32.toNat := fun a b => UInt32.toNat_inj.mp
  have hnodup : (t.order.map fun k => k.slot.toNat).Nodup := by
    have hm := h.slots_nodup.map hinj
    rwa [List.map_map] at hm
  apply List.count_eq_one_of_mem hnodup
  rw [List.mem_map]
  exact ⟨_, List.mem_of_getElem? ho, hn⟩

namespace Problem

theorem representation_of_reachable {p : Problem} (h : p.Reachable) :
    (∀ kind, (p.table kind).Lists (p.tableau.names kind) ∧
      (∀ (s : Nat) (slot : Slot) (tenant : Tenant), (p.table kind).slots[s]? = some slot →
        slot.tenant = some tenant →
          ((p.table kind).order.map fun k => k.slot.toNat).count s = 1) ∧
      (p.table kind).slots.length = (p.table kind).order.length + (p.table kind).vacant.length) ∧
    ∀ r ∈ p.tableau.rows, Entry.Proper p.tableau.columns.length r.entries := by
  have hp := h.consistent
  refine ⟨fun kind => ?_, hp.sound.entries⟩
  have hl := hp.lists kind
  exact ⟨hl, fun s slot tenant => hl.count_slot, hl.length_slots⟩

theorem representation_of_thinned :
    thinned.vars = [⟨⟨0⟩, ⟨1, 0⟩⟩] ∧
      ((∀ kind, (thinned.table kind).Lists (thinned.tableau.names kind) ∧
        (∀ (s : Nat) (slot : Slot) (tenant : Tenant), (thinned.table kind).slots[s]? = some slot →
          slot.tenant = some tenant →
            ((thinned.table kind).order.map fun k => k.slot.toNat).count s = 1) ∧
        (thinned.table kind).slots.length =
          (thinned.table kind).order.length + (thinned.table kind).vacant.length) ∧
      ∀ r ∈ thinned.tableau.rows, Entry.Proper thinned.tableau.columns.length r.entries) :=
  ⟨by decide +kernel, representation_of_reachable reachable_thinned⟩

end Problem

end LinearProgram
