import LinearProgram.Proofs.Problem.Membership

namespace LinearProgram

structure Process where
  ids : IdSupply
  problems : List Problem

namespace Process

inductive Action where
  | create (tableau : Tableau)
  | operate (i : Nat) (op : Operation)

inductive Event where
  | added (i : Nat) (v : Variable)
  | disposed (i : Nat) (kind : EntityKind) (h : Handle kind)
  deriving DecidableEq

def start : Process := ⟨.start, []⟩

def create (w : Process) (tableau : Tableau) : Process :=
  match Problem.ofTableau tableau w.ids.take.1 with
  | .ok p => ⟨w.ids.take.2, w.problems ++ [p]⟩
  | .error _ => w

def operate (w : Process) (i : Nat) (op : Operation) : Process :=
  { w with problems := w.problems.modify i op.after }

def after (w : Process) : Action → Process
  | .create tableau => w.create tableau
  | .operate i op => w.operate i op

def eventsOf (i : Nat) (op : Operation) (p : Problem) : List Event :=
  (op.added p).map (.added i) ++ (op.removed? p).toList.map fun e => .disposed i e.1 e.2

def events (w : Process) : Action → List Event
  | .create _ => []
  | .operate i op =>
    match w.problems[i]? with
    | some p => eventsOf i op p
    | none => []

def Event.problem : Event → Nat
  | .added i _ => i
  | .disposed i _ _ => i

def Event.isDisposal (i : Nat) : Event → Bool
  | .added _ _ => false
  | .disposed j _ _ => i == j

def disposals (log : List Event) (i : Nat) : Nat := log.countP (Event.isDisposal i)

/-- A process and what has happened in it, as long as no problem has more entities than slots. -/
inductive Run : Process → List Event → Prop
  | start : Run start []
  | step {w : Process} {log : List Event} (h : Run w log) (a : Action)
    (hroom : ∀ p ∈ (w.after a).problems, p.InCapacity) : Run (w.after a) (log ++ w.events a)

/-- The variable was added to problem `i`, and has not been disposed there since. Appending a
document adds the variables that it returned while it ran, also when it fails later. -/
def Standing (log : List Event) (i : Nat) (v : Variable) : Prop :=
  ∃ m : Nat, log[m]? = some (Event.added i v) ∧
    ∀ n : Nat, m < n → log[n]? ≠ some (Event.disposed i .var v)

def Event.Apart (e f : Event) : Prop := ∀ i j v, e = .added i v → f ≠ .added j v

variable {w : Process} {log new : List Event} {i j : Nat} {p : Problem} {op : Operation}
  {v : Variable} {kind : EntityKind} {h : Handle kind}

section Events

theorem mem_eventsOf_added : Event.added j v ∈ eventsOf i op p ↔ j = i ∧ v ∈ op.added p := by
  simp only [eventsOf, List.mem_append, List.mem_map, Event.added.injEq, reduceCtorEq, and_false,
    exists_false, or_false]
  constructor
  · rintro ⟨v, hv, rfl, rfl⟩
    exact ⟨rfl, hv⟩
  · rintro ⟨rfl, hv⟩
    exact ⟨v, hv, rfl, rfl⟩

theorem mem_eventsOf_disposed :
    Event.disposed j kind h ∈ eventsOf i op p ↔ j = i ∧ op.removed? p = some ⟨kind, h⟩ := by
  simp only [eventsOf, List.mem_append, List.mem_map, reduceCtorEq, and_false, exists_false,
    false_or, Option.mem_toList, Event.disposed.injEq]
  constructor
  · rintro ⟨e, he, rfl, rfl, hh⟩
    cases hh
    exact ⟨rfl, he⟩
  · rintro ⟨rfl, hr⟩
    exact ⟨_, hr, rfl, rfl, HEq.rfl⟩

theorem apart_eventsOf (h : (op.added p).Nodup) : (eventsOf i op p).Pairwise Event.Apart := by
  have hnone (e : Σ kind, Handle kind) (f : Event) : Event.Apart (.disposed i e.1 e.2) f :=
    fun _ _ _ he => nomatch he
  refine List.pairwise_append.mpr ⟨List.pairwise_map.mpr (h.imp fun hne => ?_),
    List.pairwise_map.mpr (List.pairwise_of_forall fun e _ => hnone e _), fun e _ f hf => ?_⟩
  · rintro _ _ v he hf
    cases he
    cases hf
    exact hne rfl
  · obtain ⟨g, -, rfl⟩ := List.mem_map.mp hf
    exact fun _ _ _ _ => nofun

theorem eq_of_apart (h : log.Pairwise Event.Apart) {m n : Nat} (hm : log[m]? = some (.added i v))
    (hn : log[n]? = some (.added j v)) : m = n := by
  obtain ⟨hm, he⟩ := List.getElem?_eq_some_iff.mp hm
  obtain ⟨hn, hf⟩ := List.getElem?_eq_some_iff.mp hn
  rw [List.pairwise_iff_getElem] at h
  obtain hlt | rfl | hlt := lt_trichotomy m n
  · exact absurd hf (h m n hm hn hlt i j v he)
  · rfl
  · exact absurd he (h n m hn hm hlt j i v hf)

theorem problem_of_mem_eventsOf {e : Event} (he : e ∈ eventsOf i op p) : e.problem = i := by
  cases e with
  | added j v => exact (mem_eventsOf_added.mp he).1
  | disposed j kind h => exact (mem_eventsOf_disposed.mp he).1

theorem disposals_append (log new : List Event) (i : Nat) :
    disposals (log ++ new) i = disposals log i + disposals new i :=
  List.countP_append

theorem disposals_eventsOf (i : Nat) (op : Operation) (p : Problem) :
    disposals (eventsOf i op p) i = op.disposals p := by
  rw [Operation.disposals_eq, eventsOf, disposals_append]
  simp [disposals, List.countP_map, Function.comp_def, Event.isDisposal]

end Events

end Process

end LinearProgram
