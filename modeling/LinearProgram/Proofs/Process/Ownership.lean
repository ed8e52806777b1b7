import LinearProgram.Proofs.Document.Copying
import LinearProgram.Proofs.Problem.Refusals
import LinearProgram.Proofs.Process.Basic

/-!
Which variables belong to a problem. Ids, slots and generations decide it, and they agree with the
record of the process as long as neither the ids nor the generations of a slot have gone round.
-/

namespace LinearProgram.Process

open Problem (Change Step Steps Attaches)

variable {w : Process} {log new : List Event} {i j : Nat} {p q : Problem} {op : Operation}
  {v : Variable} {l : Linear}

structure Tracks (log : List Event) (i : Nat) (p : Problem) : Prop where
  number : p.id.number.toNat = i
  reachable : p.Reachable
  live : ∀ v, v ∈ p.vars ↔ Event.added i v ∈ log ∧ Event.disposed i .var v ∉ log
  owned : ∀ v, Event.added i v ∈ log → v.problem = p.id
  retired : ∀ v : Variable, Event.disposed i .var v ∈ log → p.Retired (disposals log i) v

namespace Tracks

theorem of_blank (hp : p.Reachable) (hb : p.Blank) (hid : p.id.number.toNat = i)
    (hlog : ∀ e ∈ log, e.problem ≠ i) : Tracks log i p where
  number := hid
  reachable := hp
  live v := by
    rw [show p.vars = [] from hb.handles .var]
    exact ⟨fun hv => (nomatch hv), fun hv => absurd rfl (hlog _ hv.1)⟩
  owned v hv := absurd rfl (hlog _ hv)
  retired v hv := absurd rfl (hlog _ hv)

theorem other (h : Tracks log i p) (hnew : ∀ e ∈ new, e.problem ≠ i) : Tracks (log ++ new) i p := by
  have hadded (v : Variable) : Event.added i v ∉ new := fun hv => hnew _ hv rfl
  have hdisposed (v : Variable) : Event.disposed i .var v ∉ new := fun hv => hnew _ hv rfl
  refine ⟨h.number, h.reachable, fun v => ?_, fun v hv => ?_, fun v hv => ?_⟩
  · simp only [List.mem_append, hadded, hdisposed, or_false]
    exact h.live v
  · exact h.owned v ((List.mem_append.mp hv).resolve_right (hadded v))
  · have hr := h.retired v ((List.mem_append.mp hv).resolve_right (hdisposed v))
    exact hr.mono (by rw [disposals_append]; omega)

section Operating

variable (h : Tracks log i p) (hroom : (op.after p).InCapacity)
include h hroom

theorem steps : Steps op.changes p (op.disposals p) (op.after p) :=
  op.steps h.reachable.consistent h.reachable.inCapacity hroom

theorem consistent_after : (op.after p).Consistent := (h.steps hroom).consistent h.reachable.consistent

theorem notMem_of_disposed (hn : disposals log i + op.disposals p < 2 ^ 32)
    (hv : Event.disposed i .var v ∈ log) : v ∉ (op.after p).vars :=
  ((h.steps hroom).retired h.reachable.consistent (h.retired v hv) hn).notMem
    (h.consistent_after hroom)

theorem live_after (hn : disposals log i + op.disposals p < 2 ^ 32) (v : Variable) :
    v ∈ (op.after p).vars ↔ Event.added i v ∈ log ++ eventsOf i op p ∧
      Event.disposed i .var v ∉ log ++ eventsOf i op p := by
  have hp := h.reachable.consistent
  simp only [List.mem_append, mem_eventsOf_added, mem_eventsOf_disposed, true_and, not_or]
  -- an operation takes one variable out, or it puts some behind the others
  by_cases hr : ∃ g, op.removed? p = some ⟨.var, g⟩
  · obtain ⟨g, hr⟩ := hr
    obtain ⟨hvars, hadded⟩ := Operation.vars_of_removed hp hr
    have hd : p.vars.Nodup := hp.handles_nodup .var
    rw [hvars, hadded, hd.mem_erase_iff, h.live v, hr]
    simp only [Option.some.injEq, Sigma.mk.injEq, true_and, heq_eq_eq, List.not_mem_nil, or_false,
      ne_eq, eq_comm]
    tauto
  · rw [not_exists] at hr
    have hvars := Operation.vars_of_kept hp h.reachable.inCapacity hroom hr
    rw [hvars, List.mem_append, h.live v]
    constructor
    · rintro (⟨hadded, hdisposed⟩ | hadded)
      · exact ⟨.inl hadded, hdisposed, hr v⟩
      · have hv := Operation.mem_vars_of_added hp h.reachable.inCapacity hroom hadded
        exact ⟨.inr hadded, fun hd => h.notMem_of_disposed hroom hn hd hv, hr v⟩
    · rintro ⟨hadded | hadded, hdisposed, -⟩
      · exact .inl ⟨hadded, hdisposed⟩
      · exact .inr hadded

theorem notMem_of_added (hn : disposals log i + op.disposals p < 2 ^ 32) (hv : v ∈ op.added p) :
    Event.added i v ∉ log := by
  intro hadded
  have hp := h.reachable.consistent
  by_cases hd : Event.disposed i .var v ∈ log
  · exact h.notMem_of_disposed hroom hn hd
      (Operation.mem_vars_of_added hp h.reachable.inCapacity hroom hv)
  · have hlive := (h.live v).mpr ⟨hadded, hd⟩
    exact (List.nodup_append.mp (Operation.nodup_added hp h.reachable.inCapacity hroom)).2.2 v hlive
      v hv rfl

theorem operated (hn : disposals log i + op.disposals p < 2 ^ 32) :
    Tracks (log ++ eventsOf i op p) i (op.after p) := by
  have hp := h.reachable.consistent
  have hid := (h.steps hroom).id_eq
  refine ⟨?_, .step op h.reachable hroom, h.live_after hroom hn, fun v hv => ?_, fun v hv => ?_⟩
  · rw [hid]
    exact h.number
  · rw [List.mem_append, mem_eventsOf_added] at hv
    obtain hv | ⟨-, hv⟩ := hv
    · rw [hid]
      exact h.owned v hv
    · exact Problem.problem_of_mem
        (Operation.mem_vars_of_added hp h.reachable.inCapacity hroom hv)
  · rw [disposals_append, disposals_eventsOf]
    rw [List.mem_append, mem_eventsOf_disposed] at hv
    obtain hv | ⟨-, hr⟩ := hv
    · exact (h.steps hroom).retired hp (h.retired v hv) hn
    · obtain ⟨hop, hv⟩ := (Operation.removed?_eq_some_iff hp).mp hr
      have hone : op.disposals p = 1 := by
        rw [Operation.disposals_eq, hr]
        rfl
      exact (op.step_of_disposed hp hv hop).retires.mono (by omega)

end Operating

end Tracks

structure Accounted (w : Process) (log : List Event) : Prop where
  supply : w.ids.next.toNat = w.problems.length
  tracks : ∀ i p, w.problems[i]? = some p → Tracks log i p
  known : ∀ e ∈ log, e.problem < w.problems.length
  once : log.Pairwise Event.Apart
  causal : ∀ (n i : Nat) (v : Variable), log[n]? = some (Event.disposed i .var v) →
    ∃ m < n, log[m]? = some (Event.added i v)

theorem id_of_fresh {tableau : Tableau} {id : ProblemId} (h : Problem.ofTableau tableau id = .ok p) :
    p.id = id := by
  unfold Problem.ofTableau at h
  split at h
  · cases h
    rfl
  · cases h

theorem problems_operate (w : Process) (i j : Nat) (op : Operation) :
    (w.operate i op).problems[j]? = (w.problems[j]?).map fun p => if i = j then op.after p else p :=
  List.getElem?_modify ..

namespace Accounted

theorem started : Accounted start [] where
  supply := rfl
  tracks _ _ hp := nomatch hp
  known _ he := nomatch he
  once := .nil
  causal _ _ _ hn := nomatch hn

theorem created (h : Accounted w log) {tableau : Tableau}
    (hlen : (w.create tableau).problems.length < 2 ^ 32) : Accounted (w.create tableau) log := by
  unfold create at hlen ⊢
  cases hp : Problem.ofTableau tableau w.ids.take.1 with
  | error e => exact h
  | ok p =>
    simp only [hp, List.length_append, List.length_singleton] at hlen
    have hnext : (w.ids.next + 1).toNat = w.problems.length + 1 := by
      rw [UInt32.toNat_add, h.supply]
      exact Nat.mod_eq_of_lt hlen
    refine ⟨?_, fun i q hq => ?_, fun e he => ?_, h.once, h.causal⟩
    · simp only [List.length_append, List.length_singleton]
      exact hnext
    · rw [List.getElem?_append] at hq
      split at hq
      · exact h.tracks i q hq
      · rename_i hi
        rw [List.getElem?_singleton] at hq
        split at hq
        · cases hq
          have hi' : i = w.problems.length := by omega
          refine .of_blank (.start hp) (Problem.blank_of_fresh hp) ?_ fun e he => ?_
          · rw [id_of_fresh hp, hi']
            exact h.supply
          · exact ((h.known e he).trans_le (Nat.le_of_not_lt hi)).ne
        · cases hq
    · simp only [List.length_append, List.length_singleton]
      exact Nat.lt_succ_of_lt (h.known e he)

theorem eq_of_id (h : Accounted w log) (hp : w.problems[i]? = some p)
    (hq : w.problems[j]? = some q) (hid : p.id = q.id) : i = j := by
  calc
    i = p.id.number.toNat := (h.tracks i p hp).number.symm
    _ = q.id.number.toNat := by rw [hid]
    _ = j := (h.tracks j q hq).number

theorem notMem_of_added (h : Accounted w log) (hp : w.problems[i]? = some p)
    (hroom : (op.after p).InCapacity) (hn : disposals log i + op.disposals p < 2 ^ 32)
    (hv : v ∈ op.added p) (j : Nat) : Event.added j v ∉ log := by
  intro hadded
  have ht := h.tracks i p hp
  have hq := List.getElem?_eq_getElem (h.known _ hadded)
  -- a variable of two problems would be one of the same problem
  have hmem := Operation.mem_vars_of_added ht.reachable.consistent ht.reachable.inCapacity hroom hv
  have hid : v.problem = p.id := (Problem.problem_of_mem hmem).trans (ht.steps hroom).id_eq
  have howned := (h.tracks j _ hq).owned v hadded
  obtain rfl := h.eq_of_id hp hq (hid.symm.trans howned)
  exact ht.notMem_of_added hroom hn hv hadded

theorem operated (h : Accounted w log) {i : Nat} (hp : w.problems[i]? = some p)
    (hroom : (op.after p).InCapacity) (hn : disposals log i + op.disposals p < 2 ^ 32) :
    Accounted (w.operate i op) (log ++ eventsOf i op p) := by
  have ht := h.tracks i p hp
  refine ⟨?_, fun j q hq => ?_, fun e he => ?_, ?_, fun n j v hv => ?_⟩
  · exact h.supply.trans (List.length_modify ..).symm
  · rw [problems_operate, Option.map_eq_some_iff] at hq
    obtain ⟨r, hr, rfl⟩ := hq
    by_cases hij : i = j
    · subst hij
      rw [hp] at hr
      cases hr
      rw [if_pos rfl]
      exact ht.operated hroom hn
    · rw [if_neg hij]
      refine (h.tracks j r hr).other fun e he => ?_
      rwa [problem_of_mem_eventsOf he]
  · rw [show (w.operate i op).problems.length = _ from List.length_modify ..]
    rw [List.mem_append] at he
    obtain he | he := he
    · exact h.known e he
    · rw [problem_of_mem_eventsOf he]
      exact (List.getElem?_eq_some_iff.mp hp).1
  · have hnodup := Operation.nodup_added ht.reachable.consistent ht.reachable.inCapacity hroom
    refine List.pairwise_append.mpr ⟨h.once, apart_eventsOf hnodup.of_append_right, ?_⟩
    rintro _ he _ hf j k v rfl rfl
    exact h.notMem_of_added hp hroom hn (mem_eventsOf_added.mp hf).2 j he
  · by_cases hlt : n < log.length
    · rw [List.getElem?_append_left hlt] at hv
      obtain ⟨m, hm, hadded⟩ := h.causal n j v hv
      exact ⟨m, hm, by rwa [List.getElem?_append_left (hm.trans hlt)]⟩
    -- what is disposed now is live now, so it was added before
    · rw [List.getElem?_append_right (Nat.le_of_not_lt hlt)] at hv
      obtain ⟨rfl, hr⟩ := mem_eventsOf_disposed.mp (List.mem_of_getElem? hv)
      have hlive := ((Operation.removed?_eq_some_iff ht.reachable.consistent).mp hr).2
      obtain ⟨m, hm⟩ := List.mem_iff_getElem?.mp ((ht.live v).mp hlive).1
      have hlen := (List.getElem?_eq_some_iff.mp hm).1
      exact ⟨m, by omega, by rwa [List.getElem?_append_left hlen]⟩

theorem mem_vars_iff (h : Accounted w log) (hp : w.problems[i]? = some p) :
    v ∈ p.vars ↔ Standing log i v := by
  rw [(h.tracks i p hp).live v]
  constructor
  · rintro ⟨hadded, hdisposed⟩
    obtain ⟨m, hm⟩ := List.mem_iff_getElem?.mp hadded
    exact ⟨m, hm, fun n _ hn => hdisposed (List.mem_of_getElem? hn)⟩
  · rintro ⟨m, hm, hlasting⟩
    refine ⟨List.mem_of_getElem? hm, fun hdisposed => ?_⟩
    obtain ⟨n, hn⟩ := List.mem_iff_getElem?.mp hdisposed
    obtain ⟨m', hmn, hm'⟩ := h.causal n i v hn
    rw [eq_of_apart h.once hm' hm] at hmn
    exact hlasting n hmn hn

end Accounted

theorem Run.accounted (h : Run w log) (hlen : w.problems.length < 2 ^ 32)
    (hn : ∀ i, disposals log i < 2 ^ 32) : Accounted w log := by
  induction h with
  | start => exact .started
  | @step w log h a hroom ih =>
    simp only [disposals_append] at hn
    have hbefore (i : Nat) : disposals log i < 2 ^ 32 := Nat.lt_of_le_of_lt (Nat.le_add_right ..) (hn i)
    cases a with
    | create tableau =>
      have hgrown : w.problems.length ≤ (w.create tableau).problems.length := by
        unfold create
        split
        · simp
        · exact Nat.le_refl _
      rw [show w.events (.create tableau) = [] from rfl, List.append_nil]
      exact (ih (hgrown.trans_lt hlen) hbefore).created hlen
    | operate i op =>
      have hsame : (w.operate i op).problems.length = w.problems.length := List.length_modify ..
      have hw := ih (hsame ▸ hlen) hbefore
      cases hp : w.problems[i]? with
      | none =>
        have hevents : w.events (.operate i op) = [] := by simp only [events, hp]
        have hafter : w.operate i op = w := by
          rw [operate, List.modify_eq_self (List.getElem?_eq_none_iff.mp hp)]
        rw [hevents, List.append_nil, after, hafter]
        exact hw
      | some p =>
        have hevents : w.events (.operate i op) = eventsOf i op p := by simp only [events, hp]
        have hafter : (w.operate i op).problems[i]? = some (op.after p) := by
          rw [problems_operate, hp]
          simp
        have hcount := hn i
        rw [hevents, disposals_eventsOf] at hcount
        rw [hevents]
        exact hw.operated hp (hroom _ (List.mem_of_getElem? hafter)) hcount

theorem operate_of_unchanged (hp : w.problems[i]? = some p) (hop : op.after p = p) :
    w.operate i op = w := by
  suffices h : w.problems.modify i op.after = w.problems by rw [operate, h]
  apply List.ext_getElem?
  intro j
  refine (problems_operate w i j op).trans ?_
  by_cases hij : i = j
  · subst hij
    rw [hp, Option.map_some, if_pos rfl, hop]
  · simp only [if_neg hij, Option.map_id_fun', id_eq]

/-- A form can be attached exactly when its coefficients are numbers and all its variables stand in
this very problem; no variable is ever added a second time, here or elsewhere. Otherwise the argument
is invalid, and the whole process is as before. -/
theorem attaches_iff_standing (h : Run w log) (hlen : w.problems.length < 2 ^ 32)
    (hn : ∀ i, disposals log i < 2 ^ 32) (hp : w.problems[i]? = some p) (ha : p.Attaches l op) :
    ((∃ answer q, op.perform p = .ok answer q) ↔
        ∀ t ∈ l.terms, t.coefficient.isNaN = false ∧ Standing log i t.var) ∧
      ((¬ ∀ t ∈ l.terms, t.coefficient.isNaN = false ∧ Standing log i t.var) →
        ∃ fault, op.perform p = .error (.refused (.invalid fault)) p ∧ w.operate i op = w) ∧
      log.Pairwise Event.Apart := by
  have hw := h.accounted hlen hn
  have hc := (hw.tracks i p hp).reachable.consistent
  have htakes : p.Takes (some l) ↔
      ∀ t ∈ l.terms, t.coefficient.isNaN = false ∧ Standing log i t.var := by
    simp only [← hw.mem_vars_iff hp]
    exact Iff.rfl
  rw [← htakes]
  refine ⟨⟨fun ⟨answer, q, hop⟩ => ?_, ha.passes hc⟩, fun hl => ?_, hw.once⟩
  · by_contra hl
    obtain ⟨fault, hop'⟩ := ha.refused hc hl
    rw [hop] at hop'
    cases hop'
  · obtain ⟨fault, hop⟩ := ha.refused hc hl
    exact ⟨fault, hop, operate_of_unchanged hp (Edit.final_error hop)⟩

theorem attaches_iff_reused :
    let x : Variable := ⟨⟨0⟩, ⟨0, 0⟩⟩
    let y : Variable := ⟨⟨0⟩, ⟨0, 1⟩⟩
    let z : Variable := ⟨⟨1⟩, ⟨0, 0⟩⟩
    let op (v : Variable) := Operation.setObjective (some (.ofTerms [⟨1, v⟩]))
    ∃ w log p, Run w log ∧ w.problems.length < 2 ^ 32 ∧ (∀ i, disposals log i < 2 ^ 32) ∧
      w.problems[0]? = some p ∧ Event.added 0 x ∈ log ∧ Event.added 1 z ∈ log ∧
      Standing log 0 y ∧ ∀ v ∈ [x, z],
        ∃ fault, (op v).perform p = .error (.refused (.invalid fault)) p ∧ w.operate 0 (op v) = w := by
  intro x y z op
  let p := (Operation.addVariable "y" .real).after
    ((Operation.dispose .var x).after ((Operation.addVariable "x" .real).after (.new ⟨0⟩)))
  have hrun : Run _ _ :=
    .step (.step (.step (.step (.step (.step .start (.create .empty) (by decide +kernel))
      (.create .empty) (by decide +kernel))
      (.operate 0 (.addVariable "x" .real)) (by decide +kernel))
      (.operate 1 (.addVariable "x" .real)) (by decide +kernel))
      (.operate 0 (.dispose .var x)) (by decide +kernel))
      (.operate 0 (.addVariable "y" .real)) (by decide +kernel)
  have hn {log : List Event} (hlog : log.length < 2 ^ 32) (i : Nat) : disposals log i < 2 ^ 32 :=
    Nat.lt_of_le_of_lt List.countP_le_length hlog
  have hiff (v : Variable) := attaches_iff_standing (i := 0) hrun (by decide +kernel)
    (hn (by decide +kernel)) rfl (.objective : p.Attaches (.ofTerms [⟨1, v⟩]) (op v))
  refine ⟨_, _, p, hrun, by decide +kernel, hn (by decide +kernel), rfl, by decide +kernel,
    by decide +kernel, ?_, fun v hv => ?_⟩
  · have hsome : (Edit.answer? (op y).perform p).isSome = true := by decide +kernel
    obtain ⟨answer, hok⟩ := Option.isSome_iff_exists.mp hsome
    have hall := (hiff y).1.mp ⟨answer, _, Edit.ok_of_answer? hok⟩
    have hmem : y ∈ (Linear.ofTerms [⟨1, y⟩]).terms.map (·.var) := by decide +kernel
    obtain ⟨t, ht, hty⟩ := List.mem_map.mp hmem
    exact hty ▸ (hall t ht).2
  · refine (hiff v).2.1 fun hv' => ?_
    obtain ⟨answer, q, hok⟩ := (hiff v).1.mpr hv'
    have hnone : ∀ v ∈ [x, z], (Edit.answer? (op v).perform p).isNone = true := by decide +kernel
    obtain ⟨e, q', herr⟩ := Edit.error_of_answer? (hnone v hv)
    cases hok.symm.trans herr

end LinearProgram.Process
