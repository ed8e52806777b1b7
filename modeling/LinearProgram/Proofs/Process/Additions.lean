import LinearProgram.Proofs.Process.Later

namespace LinearProgram.Process

open Problem (Steps)

variable {w w' : Process} {new more : List Event} {i : Nat} {p q : Problem} {op : Operation}
  {v : Variable}

structure Augments (new : List Event) (i : Nat) (p q : Problem) : Prop where
  known : ∀ v ∈ q.vars, v ∈ p.vars ∨ Event.added i v ∈ new
  fresh : disposals new i < 2 ^ 32 → ∀ v, Event.added i v ∈ new → v ∉ p.vars

namespace Augments

theorem refl : Augments [] i p p := ⟨fun _ hv => .inl hv, fun _ _ hm => nomatch hm⟩

theorem other (ha : Augments new i p q) (hmore : ∀ e ∈ more, e.problem ≠ i) :
    Augments (new ++ more) i p q := by
  have hmem (v : Variable) : Event.added i v ∈ new ++ more ↔ Event.added i v ∈ new := by
    rw [List.mem_append, or_iff_left]
    exact fun hm => hmore _ hm rfl
  refine ⟨fun v hv => ?_, fun hn v hv => ?_⟩
  · rw [hmem]
    exact ha.known v hv
  · rw [disposals_append, disposals_eq_zero hmore, Nat.add_zero] at hn
    exact ha.fresh hn v ((hmem v).mp hv)

theorem operated (ha : Augments new i p q) (hp : p.Consistent) (hf : Follows new i p q)
    (hroom : (op.after q).InCapacity) :
    Augments (new ++ eventsOf i op q) i p (op.after q) := by
  have hq := hf.reachable.consistent
  have hcap := hf.reachable.inCapacity
  refine ⟨fun v hv => ?_, fun hn v hv => ?_⟩
  · have hkept (hv : v ∈ q.vars) : v ∈ p.vars ∨ Event.added i v ∈ new ++ eventsOf i op q :=
      (ha.known v hv).imp_right (List.mem_append_left _)
    by_cases hr : ∃ g, op.removed? q = some ⟨.var, g⟩
    · obtain ⟨g, hr⟩ := hr
      rw [(Operation.vars_of_removed hq hr).1] at hv
      exact hkept (List.mem_of_mem_erase hv)
    · rw [not_exists] at hr
      rw [Operation.vars_of_kept hq hcap hroom hr] at hv
      rcases List.mem_append.mp hv with hv | hv
      · exact hkept hv
      · exact .inr (List.mem_append_right _ (mem_eventsOf_added.mpr ⟨rfl, hv⟩))
  · rw [disposals_append, disposals_eventsOf] at hn
    rcases List.mem_append.mp hv with hv | hv
    · exact ha.fresh (by omega) v hv
    · intro hv'
      have hadded := (mem_eventsOf_added.mp hv).2
      -- nothing comes back, so an earlier variable would be there just before it is added
      have hback : v ∈ q.vars := hf.steps.live_between hp
        ((op.steps hq hcap hroom).mono fun _ _ => trivial) hn hv'
        (Operation.mem_vars_of_added hq hcap hroom hadded)
      exact (List.nodup_append.mp (Operation.nodup_added hq hcap hroom)).2.2 v hback v hadded rfl

end Augments

theorem Later.augments (h : Later w w' new) (hp : w.problems[i]? = some p) (hr : p.Reachable) :
    ∃ q, w'.problems[i]? = some q ∧ Follows new i p q ∧ Augments new i p q :=
  h.relates hp (fun new q => Follows new i p q ∧ Augments new i p q) ⟨.refl hr, .refl⟩
    (fun ⟨hf, ha⟩ hmore => ⟨hf.other hmore, ha.other hmore⟩)
    fun _ ⟨hf, ha⟩ hroom => ⟨hf.operated hroom, ha.operated hr.consistent hf hroom⟩

theorem Augments.added_iff (ha : Augments new i p q) (hn : disposals new i < 2 ^ 32)
    (hv : v ∈ q.vars) : Event.added i v ∈ new ↔ v ∉ p.vars :=
  ⟨ha.fresh hn v, (ha.known v hv).resolve_left⟩

end LinearProgram.Process
