import LinearProgram.Proofs.Pairing.Basic
import LinearProgram.Proofs.Problem.Retirement

/-!
Problems that are alike: the same but for slots, generations and the order of vacant slots, under a
pairing of the handles that were ever in use. Steps with the same contents keep them alike.
-/

namespace LinearProgram.Problem

variable {R : Pairing} {p q p' q' : Problem} {kind : EntityKind} {h h' : Handle kind}
  {change change' : Change} {m n : Nat}

def Abreast (p q : Problem) : Pairing := fun kind h h' =>
  ∃ i : Nat, (p.handles kind)[i]? = some h ∧ (q.handles kind)[i]? = some h'

/-- The handles are live at one position, or both were disposed, or both belong elsewhere. -/
inductive Standing (p q : Problem) (n : Nat) {kind : EntityKind} (h h' : Handle kind) : Prop
  | live (hpq : Abreast p q kind h h')
  | retired (hp : p.Retired n h) (hq : q.Retired n h')
  | foreign (hp : h.problem ≠ p.id) (hq : h'.problem ≠ q.id)

structure SameContents (p q : Problem) : Prop where
  tableau : p.tableau = q.tableau
  name : p.name = q.name
  objectiveName : p.objectiveName = q.objectiveName
  status : p.status = q.status
  solution : p.solution = q.solution
  scale : p.valueScale = q.valueScale

structure Alike (R : Pairing) (n : Nat) (p q : Problem) : Prop where
  left : p.Consistent
  right : q.Consistent
  same : SameContents p q
  few : n < Table.generations
  oneToOne : R.OneToOne
  abreast : Abreast p q ≤ R
  stands : ∀ {kind : EntityKind} {h h' : Handle kind}, R kind h h' → Standing p q n h h'

section Pairs

theorem Abreast.mem_left (hpq : Abreast p q kind h h') : h ∈ p.handles kind := by
  obtain ⟨i, hi, -⟩ := hpq
  exact List.mem_of_getElem? hi

theorem Abreast.mem_right (hpq : Abreast p q kind h h') : h' ∈ q.handles kind := by
  obtain ⟨i, -, hi⟩ := hpq
  exact List.mem_of_getElem? hi

theorem Standing.live_left (hs : Standing p q n h h') (hp : p.Consistent)
    (hh : h ∈ p.handles kind) : Abreast p q kind h h' := by
  cases hs with
  | live hpq => exact hpq
  | retired hr _ => exact absurd hh (hr.notMem hp)
  | foreign hf _ => exact absurd (problem_of_mem hh) hf

theorem Standing.live_right (hs : Standing p q n h h') (hq : q.Consistent)
    (hh : h' ∈ q.handles kind) : Abreast p q kind h h' := by
  cases hs with
  | live hpq => exact hpq
  | retired _ hr => exact absurd hh (hr.notMem hq)
  | foreign _ hf => exact absurd (problem_of_mem hh) hf

theorem abreast_biUnique (hp : p.Consistent) (hq : q.Consistent) (kind : EntityKind) :
    Relator.BiUnique (Abreast p q kind) := by
  constructor
  · rintro a b c ⟨i, hai, hci⟩ ⟨j, hbj, hcj⟩
    have hlt := (List.getElem?_eq_some_iff.mp hci).1
    have hij := (List.getElem?_inj hlt (hq.handles_nodup kind)).mp (hci.trans hcj.symm)
    rw [hij, hbj, Option.some.injEq] at hai
    exact hai.symm
  · rintro a b c ⟨i, hai, hbi⟩ ⟨j, haj, hcj⟩
    have hlt := (List.getElem?_eq_some_iff.mp hai).1
    have hij := (List.getElem?_inj hlt (hp.handles_nodup kind)).mp (hai.trans haj.symm)
    rw [hij, hcj, Option.some.injEq] at hbi
    exact hbi.symm

theorem oneToOne_sup_abreast (hp : p.Consistent) (hq : q.Consistent) (hR : R.OneToOne)
    (hs : ∀ {kind : EntityKind} {h h' : Handle kind}, R kind h h' → Standing p q n h h') :
    (R ⊔ Abreast p q).OneToOne := by
  intro kind
  have habreast := abreast_biUnique hp hq kind
  -- an old pair with one live side is a pair by position, so the mixed cases come down to those
  constructor
  · rintro a b c (ha | ha) (hb | hb)
    · exact (hR kind).1 ha hb
    · exact habreast.1 ((hs ha).live_right hq hb.mem_right) hb
    · exact habreast.1 ha ((hs hb).live_right hq ha.mem_right)
    · exact habreast.1 ha hb
  · rintro a b c (hb | hb) (hc | hc)
    · exact (hR kind).2 hb hc
    · exact habreast.2 ((hs hb).live_left hp hc.mem_left) hc
    · exact habreast.2 hb ((hs hc).live_left hp hb.mem_left)
    · exact habreast.2 hb hc

end Pairs

namespace Alike

theorem index_eq (h : Alike R n p q) {g g' : Handle kind} (hg : R kind g g') :
    p.indexOf g = q.indexOf g' := by
  cases h.stands hg with
  | live hpq =>
    obtain ⟨i, hi, hi'⟩ := hpq
    rw [h.left.indexOf_eq_ok_iff.mpr hi, h.right.indexOf_eq_ok_iff.mpr hi']
  | retired hp hq => rw [hp.indexOf_eq, hq.indexOf_eq]
  | foreign hp hq => rw [indexOf_eq, indexOf_eq, if_neg hp, if_neg hq]

theorem length_handles_eq (h : Alike R n p q) (kind : EntityKind) :
    (p.handles kind).length = (q.handles kind).length := by
  rw [← h.left.length_names, ← h.right.length_names, h.same.tableau]

theorem handles (h : Alike R n p q) (kind : EntityKind) :
    List.Forall₂ (R kind) (p.handles kind) (q.handles kind) := by
  rw [List.forall₂_iff_get]
  refine ⟨h.length_handles_eq kind, fun i hi hi' => h.abreast _ _ _ ⟨i, ?_, ?_⟩⟩
  · exact List.getElem?_eq_getElem hi
  · exact List.getElem?_eq_getElem hi'

theorem mem_iff (h : Alike R n p q) {g g' : Handle kind} (hg : R kind g g') :
    g ∈ p.handles kind ↔ g' ∈ q.handles kind :=
  ⟨fun hm => ((h.stands hg).live_left h.left hm).mem_right,
    fun hm => ((h.stands hg).live_right h.right hm).mem_left⟩

theorem idxOf_eq (h : Alike R n p q) {g g' : Handle kind} (hg : R kind g g')
    (hm : g ∈ p.handles kind) : (p.handles kind).idxOf g = (q.handles kind).idxOf g' := by
  have hi := h.left.indexOf_of_mem hm
  rw [h.index_eq hg, h.right.indexOf_of_mem ((h.mem_iff hg).mp hm), Except.ok.injEq] at hi
  exact hi.symm

theorem of_stands (hR : R.OneToOne) (hp : p'.Consistent) (hq : q'.Consistent)
    (hsame : SameContents p' q') (hn : n < Table.generations)
    (hs : ∀ {kind : EntityKind} {h h' : Handle kind}, R kind h h' → Standing p' q' n h h') :
    Alike (R ⊔ Abreast p' q') n p' q' where
  left := hp
  right := hq
  same := hsame
  few := hn
  oneToOne := oneToOne_sup_abreast hp hq hR hs
  abreast := le_sup_right
  stands := by
    rintro kind h h' (hh | hh)
    · exact hs hh
    · exact .live hh

theorem abreast_mono (hs : Step change p p') (hs' : Step change' q q')
    (hc : change.removals = 0) (hc' : change'.removals = 0) : Abreast p q ≤ Abreast p' q' := by
  rintro kind h h' ⟨i, hi, hi'⟩
  obtain ⟨added, hp⟩ := hs.handles_append hc kind
  obtain ⟨added', hq⟩ := hs'.handles_append hc' kind
  refine ⟨i, ?_, ?_⟩
  · rw [hp, List.getElem?_append_left (List.getElem?_eq_some_iff.mp hi).1, hi]
  · rw [hq, List.getElem?_append_left (List.getElem?_eq_some_iff.mp hi').1, hi']

theorem advance (h : Alike R n p q) (hs : Step change p p') (hs' : Step change' q q')
    (hc : change.removals = 0) (hc' : change'.removals = 0) (hsame : SameContents p' q') :
    Alike (R ⊔ Abreast p' q') n p' q' := by
  refine of_stands h.oneToOne (hs.consistent h.left) (hs'.consistent h.right) hsame h.few ?_
  intro kind g g' hg
  have hfew := h.few
  cases h.stands hg with
  | live hpq => exact .live (abreast_mono hs hs' hc hc' _ _ _ hpq)
  | retired hp hq =>
    have hp' := hs.retired h.left hp (by omega)
    have hq' := hs'.retired h.right hq (by omega)
    rw [hc] at hp'
    rw [hc'] at hq'
    exact .retired hp' hq'
  | foreign hp hq =>
    rw [← hs.id_eq] at hp
    rw [← hs'.id_eq] at hq
    exact .foreign hp hq

theorem abreast_eraseIdx {i k : Nat} (hp : p'.handles kind = (p.handles kind).eraseIdx k)
    (hq : q'.handles kind = (q.handles kind).eraseIdx k) (hi : (p.handles kind)[i]? = some h)
    (hi' : (q.handles kind)[i]? = some h') (hik : i ≠ k) : Abreast p' q' kind h h' := by
  by_cases hlt : i < k
  · refine ⟨i, ?_, ?_⟩
    · rwa [hp, List.getElem?_eraseIdx_of_lt hlt]
    · rwa [hq, List.getElem?_eraseIdx_of_lt hlt]
  · obtain ⟨j, rfl⟩ : ∃ j, i = j + 1 := ⟨i - 1, by omega⟩
    have hle : k ≤ j := by omega
    refine ⟨j, ?_, ?_⟩
    · rwa [hp, List.getElem?_eraseIdx_of_ge hle]
    · rwa [hq, List.getElem?_eraseIdx_of_ge hle]

theorem withdraw {g g' : Handle kind} (h : Alike R n p q) (hg : R kind g g')
    (hs : Step (.removal kind g) p p') (hs' : Step (.removal kind g') q q')
    (hsame : SameContents p' q') (hn : n + 1 < Table.generations) :
    Alike (R ⊔ Abreast p' q') (n + 1) p' q' := by
  refine of_stands h.oneToOne (hs.consistent h.left) (hs'.consistent h.right) hsame hn ?_
  intro other b b' hb
  cases h.stands hb with
  | retired hp hq => exact .retired (hs.retired h.left hp hn) (hs'.retired h.right hq hn)
  | foreign hp hq =>
    rw [← hs.id_eq] at hp
    rw [← hs'.id_eq] at hq
    exact .foreign hp hq
  | live hpq =>
    by_cases ho : other = kind
    · subst ho
      have hmem := hs.mem_of_removal
      have hindex := h.idxOf_eq hg hmem
      have hp := hs.handles_erase h.left
      have hq := hs'.handles_erase h.right
      rw [← hindex] at hq
      obtain ⟨i, hi, hi'⟩ := hpq
      -- the pair at the vacated position is the one that is disposed; the others move together
      by_cases hik : i = (p.handles other).idxOf g
      · have hbg : b = g := by
          rw [hik, List.getElem?_eq_getElem (List.idxOf_lt_length_of_mem hmem),
            List.getElem_idxOf, Option.some.injEq] at hi
          exact hi.symm
        subst hbg
        obtain rfl := (h.oneToOne other).2 hb hg
        have hle := Nat.le_add_left 1 n
        exact .retired ⟨hs.retires.1, hs.retires.2.mono hle⟩ ⟨hs'.retires.1, hs'.retires.2.mono hle⟩
      · exact .live (abreast_eraseIdx hp hq hi hi' hik)
    · obtain ⟨i, hi, hi'⟩ := hpq
      refine .live ⟨i, ?_, ?_⟩
      · rwa [hs.handles_other ho]
      · rwa [hs'.handles_other ho]

end Alike

end LinearProgram.Problem
