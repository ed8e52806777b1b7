import LinearProgram.Proofs.Table.Change
import Mathlib.Data.List.InsertIdx
import Mathlib.Data.Nat.ModEq

/-!
Who sits in the slots of a table, told by what has happened to it. A key fits its slot as long as it
is occupied and has been vacated as often as the generation says; generations wrap around, so this
is a matter of remainders.
-/

namespace LinearProgram.Table

inductive Event
  | entered (key : Key) (name : String)
  | left (key : Key)

def Event.vacates (s : UInt32) : Event → Bool
  | .entered _ _ => false
  | .left key => key.slot = s

def departures (log : List Event) (s : UInt32) : Nat := log.countP (Event.vacates s)

/-- Who has entered and not left yet, in the order of entering. -/
def residents : List Event → List (Key × String)
  | [] => []
  | .entered key name :: later =>
    if departures later key.slot = 0 then (key, name) :: residents later else residents later
  | .left _ :: later => residents later

/-- A table that was empty once, and what has happened to it. Names are not looked at, and a key may
be taken out that was never issued or has left before. -/
inductive History : Table → List Event → Prop
  | start : History empty []
  | enter {t t' : Table} {log : List Event} {key : Key} (h : History t log) (name : String)
    (hx : insert name t.size t = .ok key t') (hcap : t'.slots.length ≤ capacity) :
    History t' (log ++ [.entered key name])
  | leave {t t' : Table} {log : List Event} {index : Nat} (h : History t log) (key : Key)
    (hx : remove key t = .ok (some index) t') : History t' (log ++ [.left key])
  | miss {t t' : Table} {log : List Event} (h : History t log) (key : Key)
    (hx : remove key t = .ok none t') : History t' log

def Occupied (t : Table) (s : UInt32) : Prop :=
  ∃ slot, t.slots[s.toNat]? = some slot ∧ slot.tenant.isSome = true

variable {t : Table} {names : List String} {name : String} {key : Key} {tenant : Tenant}
  {log more before later : List Event} {s : UInt32}

section Log

theorem departures_append : departures (log ++ more) s = departures log s + departures more s :=
  List.countP_append

theorem departures_entered : departures (.entered key name :: log) s = departures log s := by
  simp [departures, Event.vacates]

theorem departures_left : departures [.left key] s = if key.slot = s then 1 else 0 := by
  simp [departures, Event.vacates]

theorem residents_entered :
    residents (log ++ [.entered key name]) = residents log ++ [(key, name)] := by
  induction log with
  | nil => rfl
  | cons e log ih =>
    cases e with
    | entered k n =>
      simp only [List.cons_append, residents, departures_append, departures_entered, ih]
      rw [show departures [] k.slot = 0 from rfl, Nat.add_zero]
      split <;> rfl
    | left k => exact ih

theorem residents_left : residents (log ++ [.left key]) =
    (residents log).filter fun r => r.1.slot ≠ key.slot := by
  induction log with
  | nil => rfl
  | cons e log ih =>
    cases e with
    | entered k n =>
      simp only [List.cons_append, residents, departures_append, departures_left, ih]
      by_cases hk : key.slot = k.slot
      · by_cases hd : departures log k.slot = 0 <;> simp [hk, hd]
      · by_cases hd : departures log k.slot = 0 <;> simp [hk, hd, Ne.symm hk]
    | left k => exact ih

theorem mem_residents (hd : departures later key.slot = 0) :
    (key, name) ∈ residents (before ++ .entered key name :: later) := by
  induction before with
  | nil =>
    rw [List.nil_append, residents, if_pos hd]
    exact List.mem_cons_self
  | cons e before ih =>
    cases e with
    | entered k n =>
      rw [List.cons_append, residents]
      split
      · exact List.mem_cons_of_mem _ ih
      · exact ih
    | left k => exact ih

end Log

theorem ofNat_eq_iff {n : Nat} {g : UInt32} : UInt32.ofNat n = g ↔ n ≡ g.toNat [MOD 2 ^ 32] := by
  rw [← UInt32.toNat_inj, UInt32.toNat_ofNat', Nat.ModEq, Nat.mod_eq_of_lt g.toNat_lt]

theorem ofNat_eq_add_iff {m n : Nat} : UInt32.ofNat m = .ofNat (m + n) ↔ 2 ^ 32 ∣ n := by
  rw [← UInt32.toNat_inj, UInt32.toNat_ofNat', UInt32.toNat_ofNat']
  omega

theorem filter_eq_eraseIdx {α β : Type} [DecidableEq α] [DecidableEq β] {f : α → β} {l : List α}
    (hl : (l.map f).Nodup) {i : Nat} {a : α} (ha : l[i]? = some a) :
    l.filter (fun b => f b ≠ f a) = l.eraseIdx i := by
  obtain ⟨hi, rfl⟩ := List.getElem?_eq_some_iff.mp ha
  rw [← List.erase_eq_eraseIdx_of_idxOf (hl.of_map.idxOf_getElem i hi), hl.of_map.erase_eq_filter]
  refine List.filter_congr fun b hb => ?_
  have hne : f b ≠ f l[i] ↔ b ≠ l[i] :=
    not_congr ⟨List.inj_on_of_nodup_map hl hb (List.getElem_mem hi), congrArg f⟩
  rw [Bool.eq_iff_iff, decide_eq_true_eq, hne, bne_iff_ne]

theorem contains_iff :
    t.contains key = true ↔ t.Occupied key.slot ∧ t.generationAt key.slot = key.generation := by
  unfold contains tenant? Occupied generationAt
  cases t.slots[key.slot.toNat]? with
  | none => simp
  | some slot => by_cases hg : slot.generation = key.generation <;> simp [hg]

theorem Arranged.not_occupied_nextKey (h : t.Arranged names) (hroom : t.size < capacity) :
    ¬ t.Occupied t.nextKey.slot := by
  rintro ⟨slot, hs, hsome⟩
  rw [h.free_nextKey hroom hs] at hsome
  cases hsome

structure Logged (t : Table) (log : List Event) : Prop where
  arranged : t.Arranged ((residents log).map Prod.snd)
  order : t.order = (residents log).map Prod.fst
  generation : ∀ s, t.generationAt s = .ofNat (departures log s)

namespace Logged

theorem entered (h : t.Logged log) (hroom : t.size < capacity) (name : String) :
    (t.entered name).Logged (log ++ [.entered t.nextKey name]) where
  arranged := by
    rw [residents_entered, List.map_append]
    exact h.arranged.entered hroom name
  order := by
    rw [residents_entered, List.map_append, order_entered, h.order]
    rfl
  generation := by
    intro s
    rw [h.arranged.generationAt_entered hroom, h.generation, departures_append, departures_entered]
    rfl

variable (h : t.Logged log)
include h

theorem resident_of_tenant (hk : t.tenant? key = some tenant) :
    (residents log)[tenant.index]? = some (key, tenant.name) := by
  have ho := h.arranged.order_of_tenant hk
  have hn := h.arranged.name_of_tenant hk
  rw [h.order, List.getElem?_map, Option.map_eq_some_iff] at ho
  obtain ⟨⟨k, n⟩, hr, rfl⟩ := ho
  rw [List.getElem?_map, hr, Option.map_some, Option.some.injEq] at hn
  rw [hr, ← hn]

theorem vacate (hk : t.tenant? key = some tenant) :
    (t.vacate key tenant).Logged (log ++ [.left key]) := by
  have hresidents : residents (log ++ [.left key]) = (residents log).eraseIdx tenant.index := by
    rw [residents_left]
    refine filter_eq_eraseIdx (f := fun r => r.1.slot) ?_ (h.resident_of_tenant hk)
    have hslots := h.arranged.slots_nodup
    rwa [h.order, List.map_map] at hslots
  constructor
  · rw [hresidents, ← List.eraseIdx_map]
    exact h.arranged.vacate hk
  · rw [hresidents, ← List.eraseIdx_map, ← h.order]
    rfl
  · intro s
    rw [generationAt_vacate hk, departures_append, departures_left]
    split
    · rw [h.generation, UInt32.ofNat_add]
      rfl
    · rw [h.generation, Nat.add_zero]

theorem occupied_iff : t.Occupied s ↔ ∃ r ∈ residents log, r.1.slot = s := by
  constructor
  · rintro ⟨⟨g, tenant⟩, hs, hsome⟩
    obtain ⟨tenant, rfl⟩ := Option.isSome_iff_exists.mp hsome
    have hk : t.tenant? ⟨s, g⟩ = some tenant := tenant?_eq_some_iff.mpr hs
    exact ⟨_, List.mem_of_getElem? (h.resident_of_tenant hk), rfl⟩
  · rintro ⟨r, hr, rfl⟩
    have hm : r.1 ∈ t.order := h.order ▸ List.mem_map_of_mem hr
    obtain ⟨i, hi⟩ := List.mem_iff_getElem?.mp hm
    obtain ⟨name, -, ht⟩ := h.arranged.resolves i r.1 hi
    exact ⟨_, tenant?_eq_some_iff.mp ht, rfl⟩

end Logged

theorem logged_empty : empty.Logged [] :=
  ⟨lists_empty.toArranged, rfl, fun _ => rfl⟩

theorem History.logged (h : History t log) : t.Logged log := by
  induction h with
  | start => exact logged_empty
  | enter _ name hx hcap ih =>
    cases hx.symm.trans (ih.arranged.insert_eq name)
    exact ih.entered (ih.arranged.size_lt_capacity hcap) name
  | leave _ key hx ih =>
    rw [ih.arranged.remove_eq] at hx
    split at hx
    · cases hx
    · rename_i hk
      cases hx
      exact ih.vacate hk
  | miss _ key hx ih =>
    rw [ih.arranged.remove_eq] at hx
    split at hx
    · cases hx
      exact ih
    · cases hx

theorem split_concat {α : Type} {l before after : List α} {a b : α}
    (h : l ++ [a] = before ++ b :: after) :
    (l = before ∧ a = b) ∨ ∃ between, l = before ++ b :: between := by
  obtain rfl | ⟨between, c, rfl⟩ := after.eq_nil_or_concat'
  · obtain ⟨hl, ha⟩ := List.append_inj' h rfl
    exact .inl ⟨hl, List.singleton_inj.mp ha⟩
  · rw [← List.cons_append, ← List.append_assoc] at h
    exact .inr ⟨between, (List.append_inj' h rfl).1⟩

theorem History.issued (h : History t log) (hlog : log = before ++ .entered key name :: later) :
    ∃ t₀ : Table, t₀.Logged before ∧ t₀.size < capacity ∧ key = t₀.nextKey := by
  induction h generalizing later with
  | start => simp at hlog
  | enter h n hx hcap ih =>
    obtain ⟨rfl, he⟩ | ⟨between, hbetween⟩ := split_concat hlog
    · have ha := h.logged.arranged
      cases hx.symm.trans (ha.insert_eq n)
      cases he
      exact ⟨_, h.logged, ha.size_lt_capacity hcap, rfl⟩
    · exact ih hbetween
  | leave h k hx ih =>
    obtain ⟨-, he⟩ | ⟨between, hbetween⟩ := split_concat hlog
    · cases he
    · exact ih hbetween
  | miss h k hx ih => exact ih hlog

theorem History.apart {k₁ k₂ : Key} {a b : String} {between : List Event} (h : History t log)
    (hlog : log = before ++ .entered k₁ a :: between ++ .entered k₂ b :: later) :
    k₁ = k₂ ↔ k₁.slot = k₂.slot ∧ 0 < departures between k₁.slot ∧
      2 ^ 32 ∣ departures between k₁.slot := by
  obtain ⟨t₂, h₂, hroom₂, rfl⟩ := h.issued hlog
  rw [List.append_assoc, List.cons_append] at hlog
  obtain ⟨t₁, h₁, hroom₁, rfl⟩ := h.issued hlog
  have hg₁ := (h₁.arranged.generation_nextKey hroom₁).trans (h₁.generation _)
  have hg₂ := (h₂.arranged.generation_nextKey hroom₂).trans (h₂.generation _)
  rw [departures_append, departures_entered] at hg₂
  have hgeneration (hs : t₁.nextKey.slot = t₂.nextKey.slot) :
      t₁.nextKey.generation = t₂.nextKey.generation ↔
        2 ^ 32 ∣ departures between t₁.nextKey.slot := by
    rw [hg₁, hg₂, ← hs, ofNat_eq_add_iff]
  rw [key_eq_iff]
  constructor
  · rintro ⟨hs, hg⟩
    refine ⟨hs, Nat.pos_of_ne_zero fun hzero => ?_, (hgeneration hs).mp hg⟩
    -- the first one would still be there, where the second one finds nobody
    exact h₂.arranged.not_occupied_nextKey hroom₂
      (h₂.occupied_iff.mpr ⟨_, mem_residents hzero, hs⟩)
  · rintro ⟨hs, -, hdvd⟩
    exact ⟨hs, (hgeneration hs).mpr hdvd⟩

/-- What a table answers when all that is in the log has happened to it. -/
structure Tenancy (t : Table) (log : List Event) : Prop where
  resolves : ∀ key, t.contains key = true ↔
    t.Occupied key.slot ∧ departures log key.slot ≡ key.generation.toNat [MOD 2 ^ 32]
  occupied : ∀ s, t.Occupied s ↔ ∃ r ∈ residents log, r.1.slot = s
  found : ∀ key, t.contains key = true → ∃ earlier name later t',
    residents log = earlier ++ (key, name) :: later ∧ t.indexOf? key = some earlier.length ∧
      t.nameOf? key = some name ∧ remove key t = .ok (some earlier.length) t'
  missing : ∀ key, t.contains key = false → t.indexOf? key = none ∧ t.nameOf? key = none ∧
    remove key t = .ok none t
  enters : ∀ name, ∃ key t', insert name t.size t = .ok key t'
  apart : ∀ before k₁ a between k₂ b later,
    log = before ++ .entered k₁ a :: between ++ .entered k₂ b :: later →
      (k₁ = k₂ ↔ k₁.slot = k₂.slot ∧ 0 < departures between k₁.slot ∧
        2 ^ 32 ∣ departures between k₁.slot)

theorem tenancy_of_history (h : History t log) : t.Tenancy log := by
  have hl := h.logged
  have hremove := hl.arranged.remove_eq
  refine ⟨fun key => ?_, fun s => hl.occupied_iff, fun key hc => ?_, fun key hc => ?_,
    fun name => ⟨_, _, hl.arranged.insert_eq name⟩, fun _ _ _ _ _ _ _ => h.apart⟩
  · rw [contains_iff, hl.generation, ofNat_eq_iff]
  · obtain ⟨tenant, hk⟩ := Option.isSome_iff_exists.mp hc
    obtain ⟨hi, hr⟩ := List.getElem?_eq_some_iff.mp (hl.resident_of_tenant hk)
    have hlength : ((residents log).take tenant.index).length = tenant.index :=
      List.length_take_of_le hi.le
    refine ⟨(residents log).take tenant.index, tenant.name,
      (residents log).drop (tenant.index + 1), t.vacate key tenant, ?_, ?_, ?_, ?_⟩
    · rw [← hr, List.getElem_cons_drop, List.take_append_drop]
    · rw [indexOf?, hk, hlength, Option.map_some]
    · rw [nameOf?, hk, Option.map_some]
    · rw [hremove, hk, hlength]
  · have hk : t.tenant? key = none := by
      rw [← Option.isNone_iff_eq_none]
      exact Option.isSome_eq_false_iff.mp hc
    refine ⟨?_, ?_, ?_⟩
    · rw [indexOf?, hk, Option.map_none]
    · rw [nameOf?, hk, Option.map_none]
    · rw [hremove, hk]

theorem tenancy_reused : ∃ t log, History t log ∧ t.Tenancy log ∧
    log = [.entered ⟨0, 0⟩ "x", .entered ⟨1, 0⟩ "y", .left ⟨0, 0⟩, .entered ⟨0, 1⟩ "y"] ∧
    t.contains ⟨0, 0⟩ = false ∧ t.contains ⟨0, 1⟩ = true ∧ t.indexOf? ⟨0, 1⟩ = some 1 ∧
    remove ⟨0, 0⟩ t = .ok none t := by
  have hlog : History _ _ := .enter (.leave (.enter (.enter .start "x" rfl (by decide)) "y" rfl
    (by decide)) ⟨0, 0⟩ rfl) "y" rfl (by decide)
  have h := tenancy_of_history hlog
  have hstale := (h.resolves ⟨0, 0⟩).not.mpr fun hk => absurd hk.2 (by decide)
  have hoccupied := (h.occupied 0).mpr (by decide)
  have hfresh := (h.resolves ⟨0, 1⟩).mpr ⟨hoccupied, by decide⟩
  rw [Bool.not_eq_true] at hstale
  exact ⟨_, _, hlog, h, rfl, hstale, hfresh, rfl, (h.missing _ hstale).2.2⟩

end LinearProgram.Table
