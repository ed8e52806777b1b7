import LinearProgram.Proofs.Tableau.Change
import LinearProgram.Proofs.Number.Double
import Mathlib.Data.List.Nodup

namespace LinearProgram

structure Entry.Proper (count : Nat) (entries : List Entry) : Prop where
  distinct : (entries.map (·.column)).Nodup
  inRange : ∀ e ∈ entries, e.column < count
  nonzero : ∀ e ∈ entries, (e.coefficient == 0) = false
  number : ∀ e ∈ entries, e.coefficient.isNaN = false

namespace Entry

namespace Proper

variable {count : Nat} {entries : List Entry}

theorem mono {more : Nat} (h : Proper count entries) (hle : count ≤ more) : Proper more entries :=
  ⟨h.distinct, fun e he => Nat.lt_of_lt_of_le (h.inRange e he) hle, h.nonzero, h.number⟩

theorem stored_eq (h : Proper count entries) : stored entries = entries := by
  rw [stored, List.filter_eq_self]
  intro e he
  simp [bne, h.nonzero e he]

theorem without (h : Proper count entries) {i : Nat} (hi : i < count) :
    Proper (count - 1) (Entry.without i entries) := by
  have hkept : ∀ e ∈ entries.filter (·.column ≠ i), e ∈ entries ∧ e.column ≠ i := by
    intro e he
    simpa using List.mem_filter.mp he
  rw [without_eq]
  refine ⟨?_, ?_, ?_, ?_⟩
  · rw [List.map_map]
    have hd : ((entries.filter (·.column ≠ i)).map (·.column)).Nodup :=
      (List.filter_sublist.map _).nodup h.distinct
    rw [List.nodup_map_iff_inj_on (hd.of_map _)]
    intro a ha b hb hab
    have hai := (hkept a ha).2
    have hbi := (hkept b hb).2
    apply List.inj_on_of_nodup_map hd ha hb
    simp only [Function.comp_apply, moved_column] at hab
    split at hab <;> split at hab <;> omega
  · rw [List.forall_mem_map]
    intro e he
    have hlt := h.inRange e (hkept e he).1
    have hne := (hkept e he).2
    rw [moved_column]
    split <;> omega
  · rw [List.forall_mem_map]
    intro e he
    rw [moved_coefficient]
    exact h.nonzero e (hkept e he).1
  · rw [List.forall_mem_map]
    intro e he
    rw [moved_coefficient]
    exact h.number e (hkept e he).1

end Proper

end Entry

namespace Tableau

structure Sound (t : Tableau) : Prop where
  bounds : ∀ kind, ∀ b ∈ t.bounds kind, b.hasNaN = false
  short : ∀ kind, ∀ name ∈ t.names kind, name.utf8ByteSize ≤ nameLimit
  shares : ∀ c ∈ t.columns, c.objective.isNaN = false
  entries : ∀ r ∈ t.rows, Entry.Proper t.columns.length r.entries

variable {t : Tableau}

namespace Sound

theorem bound_column (h : t.Sound) {c : Column} (hc : c ∈ t.columns) : c.bound.hasNaN = false :=
  h.bounds .var _ (List.mem_map_of_mem hc)

theorem bound_row (h : t.Sound) {r : Row} (hr : r ∈ t.rows) : r.bound.hasNaN = false :=
  h.bounds .constraint _ (List.mem_map_of_mem hr)

theorem of_parts
    (hc : ∀ c ∈ t.columns, c.name.utf8ByteSize ≤ nameLimit ∧ c.bound.hasNaN = false ∧
      c.objective.isNaN = false)
    (hr : ∀ r ∈ t.rows, r.name.utf8ByteSize ≤ nameLimit ∧ r.bound.hasNaN = false ∧
      Entry.Proper t.columns.length r.entries) : t.Sound where
  bounds := by
    rintro (_ | _) b hb
    · obtain ⟨c, hm, rfl⟩ := List.mem_map.mp hb
      exact (hc c hm).2.1
    · obtain ⟨r, hm, rfl⟩ := List.mem_map.mp hb
      exact (hr r hm).2.1
  short := by
    rintro (_ | _) name hn
    · obtain ⟨c, hm, rfl⟩ := List.mem_map.mp hn
      exact (hc c hm).1
    · obtain ⟨r, hm, rfl⟩ := List.mem_map.mp hn
      exact (hr r hm).1
  shares := fun c hm => (hc c hm).2.2
  entries := fun r hm => (hr r hm).2.2

theorem column (h : t.Sound) {c : Column} (hc : c ∈ t.columns) :
    c.name.utf8ByteSize ≤ nameLimit ∧ c.bound.hasNaN = false ∧ c.objective.isNaN = false :=
  ⟨h.short .var _ (List.mem_map_of_mem hc), h.bound_column hc, h.shares c hc⟩

theorem row (h : t.Sound) {r : Row} (hr : r ∈ t.rows) :
    r.name.utf8ByteSize ≤ nameLimit ∧ r.bound.hasNaN = false ∧
      Entry.Proper t.columns.length r.entries :=
  ⟨h.short .constraint _ (List.mem_map_of_mem hr), h.bound_row hr, h.entries r hr⟩

theorem recolumned (h : t.Sound) {f : Column → Column}
    (hf : ∀ c ∈ t.columns, (f c).name.utf8ByteSize ≤ nameLimit ∧ (f c).bound.hasNaN = false ∧
      (f c).objective.isNaN = false) (i : Nat) : (t.recolumned i f).Sound := by
  apply of_parts
  · intro c hc
    rcases mem_modify hc with hm | ⟨d, hd, rfl⟩
    · exact h.column hm
    · exact hf d hd
  · intro r hr
    simpa [Tableau.recolumned] using h.row hr

theorem rerowed (h : t.Sound) {f : Row → Row}
    (hf : ∀ r ∈ t.rows, (f r).name.utf8ByteSize ≤ nameLimit ∧ (f r).bound.hasNaN = false ∧
      Entry.Proper t.columns.length (f r).entries) (i : Nat) : (t.rerowed i f).Sound := by
  apply of_parts
  · exact fun c hc => h.column hc
  · intro r hr
    rcases mem_modify hr with hm | ⟨s, hs, rfl⟩
    · exact h.row hm
    · exact hf s hs

theorem rebounded (h : t.Sound) {b : Bound} (hb : b.hasNaN = false) (kind : EntityKind) (i : Nat) :
    (t.rebounded b kind i).Sound := by
  cases kind with
  | var =>
    exact h.recolumned (f := fun c => { c with bound := b })
      (fun c hc => ⟨(h.column hc).1, hb, (h.column hc).2.2⟩) i
  | constraint =>
    exact h.rerowed (f := fun r => { r with bound := b })
      (fun r hr => ⟨(h.row hr).1, hb, (h.row hr).2.2⟩) i

theorem retyped (h : t.Sound) (i : Nat) (type : VarType) :
    (t.recolumned i (·.typed type)).Sound := by
  apply h.recolumned
  intro c hc
  rw [Column.typed_name, Column.typed_objective, Column.typed_bound]
  refine ⟨(h.column hc).1, ?_, (h.column hc).2.2⟩
  split
  · rfl
  · exact (h.column hc).2.1

theorem addColumn (h : t.Sound) {c : Column}
    (hc : c.name.utf8ByteSize ≤ nameLimit ∧ c.bound.hasNaN = false ∧ c.objective.isNaN = false) :
    Sound { t with columns := t.columns ++ [c] } := by
  apply of_parts
  · intro d hd
    rcases List.mem_append.mp hd with hd | hd
    · exact h.column hd
    · rw [List.mem_singleton.mp hd]
      exact hc
  · intro r hr
    obtain ⟨hn, hb, he⟩ := h.row hr
    exact ⟨hn, hb, he.mono (by simp)⟩

theorem addRow (h : t.Sound) {r : Row}
    (hr : r.name.utf8ByteSize ≤ nameLimit ∧ r.bound.hasNaN = false ∧
      Entry.Proper t.columns.length r.entries) : Sound { t with rows := t.rows ++ [r] } := by
  apply of_parts
  · exact fun c hc => h.column hc
  · intro s hs
    rcases List.mem_append.mp hs with hs | hs
    · exact h.row hs
    · rw [List.mem_singleton.mp hs]
      exact hr

theorem priced (h : t.Sound) {xs : List Float} (hx : ∀ x ∈ xs, x.isNaN = false) :
    (t.priced xs).Sound := by
  apply of_parts
  · intro c hc
    obtain ⟨d, hd, rfl | ⟨x, hm, rfl⟩⟩ := mem_withObjective hc
    · exact h.column hd
    · exact ⟨(h.column hd).1, (h.column hd).2.1, hx x hm⟩
  · intro r hr
    have hl : (Tableau.withObjective t.columns xs).length = t.columns.length := by
      simpa using congrArg List.length (names_withObjective t.columns xs)
    simpa only [Tableau.priced, hl] using h.row hr

theorem withDirection (h : t.Sound) (direction : Direction) :
    Sound { t with direction := direction } := ⟨h.bounds, h.short, h.shares, h.entries⟩

theorem without (h : t.Sound) (kind : EntityKind) {i : Nat} (hi : i < (t.names kind).length) :
    (t.without kind i).Sound := by
  cases kind with
  | var =>
    have hi : i < t.columns.length := by simpa [names] using hi
    apply of_parts
    · exact fun c hc => h.column (List.mem_of_mem_eraseIdx hc)
    · intro r hr
      obtain ⟨s, hs, rfl⟩ := List.mem_map.mp hr
      obtain ⟨hn, hb, he⟩ := h.row hs
      refine ⟨hn, hb, ?_⟩
      simpa [Tableau.without, withoutColumn, Row.withoutColumn, List.length_eraseIdx_of_lt hi]
        using he.without hi
  | constraint =>
    apply of_parts
    · exact fun c hc => h.column hc
    · exact fun r hr => h.row (List.mem_of_mem_eraseIdx hr)

end Sound

end Tableau

end LinearProgram
