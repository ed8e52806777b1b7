import LinearProgram.Proofs.Problem.Invalidation
import LinearProgram.Proofs.Problem.Recorded

/-!
The status of a problem: which events of a run decide it, and that the recorded solution always goes
with it. A run may note its events; apart from the notes it is the run it would be without them.
-/

namespace LinearProgram

inductive Event where
  | recorded (status : Status)
  | changed
  deriving DecidableEq

namespace Event

def status : Event → Status
  | recorded status => status
  | changed => .unknown

def statusAfter (log : List Event) : Status := (log.getLast?.map status).getD .unknown

theorem statusAfter_append (log : List Event) (event : Option Event) :
    statusAfter (log ++ event.toList) = (event.map status).getD (statusAfter log) := by
  cases event with
  | none => rw [Option.toList_none, List.append_nil, Option.map_none, Option.getD_none]
  | some event => simp [statusAfter]

theorem statusAfter_eq_iff {log : List Event} {s : Status} (hs : s ≠ .unknown) :
    statusAfter log = s ↔ log.getLast? = some (.recorded s) := by
  unfold statusAfter
  cases log.getLast? with
  | none => simpa using hs.symm
  | some event =>
    cases event with
    | recorded s' => simp [status]
    | changed => simpa [status] using hs.symm

end Event

namespace Problem

variable {α β : Type} {kind : EntityKind} {p : Problem}

section Telling

structure Tells (event : Option Event) (x : Edit α) : Prop where
  fitting : Edit.Keeps Fitting x
  done {p a q} : x p = .ok a q → q.status = (event.map Event.status).getD p.status
  failed {p e q} : x p = .error e q → q.status = p.status

namespace Tells

theorem of_voids {x : Edit α} (h : ∀ p, Voids x p) : Tells (some .changed) x where
  fitting p hp := by
    have hx := h p
    unfold Voids at hx
    unfold Edit.final
    cases hr : x p with
    | ok a q =>
      rw [hr] at hx
      exact ⟨by rw [hx.1, hx.2]; rfl, by simp [hx.2]⟩
    | error e q =>
      rw [hr] at hx
      exact hx.fitting hp
  done {p a q} hq := by
    have hx := h p
    unfold Voids at hx
    rw [hq] at hx
    exact hx.1
  failed {p e q} hq := by
    have hx := h p
    unfold Voids at hx
    rw [hq] at hx
    exact hx.status

theorem of_status {x : Edit α} (hf : Edit.Keeps Fitting x)
    (hs : ∀ p, (Edit.final x p).status = p.status) : Tells none x where
  fitting := hf
  done {p a q} hq := by rw [← hs p, Edit.final_ok hq]; rfl
  failed {p e q} hq := by rw [← hs p, Edit.final_error hq]

theorem of_same {x : Edit α} (h : ∀ p, SameOutcome p (Edit.final x p)) : Tells none x :=
  of_status (fun p hp => (h p).fitting hp) fun p => (h p).status

theorem ask (read : Problem → Outcome α) : Tells none (Problem.ask read) :=
  of_same (SameOutcome.ask read)

theorem of_ask {event : Option Event} {read : Problem → Outcome α} {f : α → Edit β}
    (h : ∀ a, Tells event (f a)) : Tells event (Problem.ask read >>= f) where
  fitting := Edit.Keeps.bind (ask read).fitting fun a => (h a).fitting
  done hq := by
    obtain ⟨a, -, ha⟩ := ok_of_ask hq
    exact (h a).done ha
  failed hq := by
    obtain rfl | ⟨a, ha⟩ := Operation.error_of_ask hq
    · rfl
    · exact (h a).failed ha

theorem answered {event : Option Event} {x : Edit α} (h : Tells event x) (f : α → β) :
    Tells event (x >>= fun a => pure (f a)) where
  fitting := Edit.Keeps.bind h.fitting fun a => Edit.Keeps.pure (f a)
  done {p b q} hq := by
    cases hx : x p with
    | ok a r =>
      simp only [Edit.bind_apply, hx, Edit.pure_apply] at hq
      cases hq
      exact h.done hx
    | error e r =>
      simp only [Edit.bind_apply, hx] at hq
      cases hq
  failed {p e q} hq := by
    cases hx : x p with
    | ok a r =>
      simp only [Edit.bind_apply, hx, Edit.pure_apply] at hq
      cases hq
    | error e r =>
      simp only [Edit.bind_apply, hx] at hq
      cases hq
      exact h.failed hx

theorem dispose (h : Handle kind) : Tells none (dispose h) := by
  refine of_status (fun p hp => ?_) fun p => ?_
  · obtain hs | ⟨i, hl⟩ := final_dispose_cases h p
    · exact hs.fitting hp
    · exact hl.fitting hp
  · obtain hs | ⟨i, hl⟩ := final_dispose_cases h p
    · exact hs.status
    · exact hl.status

theorem recordSolution (status : Status) (values : Option Solution) :
    Tells (some (.recorded status)) (recordSolution status values) := by
  have hrun (p : Problem) : (∃ e, Problem.recordSolution status values p = .error e p) ∨
      ∃ solution, p.accepted status values = .ok solution ∧
        Problem.recordSolution status values p =
          .ok () { p with status := status, solution := solution } := by
    cases ha : p.accepted status values with
    | error e => exact .inl ⟨e, ask_refused ha _⟩
    | ok solution => exact .inr ⟨solution, rfl, ask_passed ha _⟩
  constructor
  · intro p hp
    obtain ⟨e, he⟩ | ⟨solution, ha, hq⟩ := hrun p
    · rwa [Edit.final_error he]
    · rw [Edit.final_ok hq]
      exact ⟨(Consistent.accepted_fits ha).1, (Consistent.accepted_fits ha).2⟩
  · intro p a q hx
    obtain ⟨e, he⟩ | ⟨solution, ha, hq⟩ := hrun p
    · rw [he] at hx
      cases hx
    · rw [hq] at hx
      cases hx
      rfl
  · intro p e q hx
    obtain ⟨e, he⟩ | ⟨solution, ha, hq⟩ := hrun p
    · rw [he] at hx
      cases hx
      rfl
    · rw [hq] at hx
      cases hx

end Tells

end Telling

section Noting

abbrev Logged (α : Type) := EStateM (Failure Error) (Problem × List Event) α

def noting (event : Option Event) (x : Edit α) : Logged α := fun s =>
  match x s.1 with
  | .ok a p => .ok a (p, s.2 ++ event.toList)
  | .error e p => .error e (p, s.2)

namespace Logged

def addInteger (name : String) (bound : Bound) : Logged Variable := do
  noting none (ask fun _ => bound.validate)
  let v ← noting (some .changed) (addVariable name .integer)
  let column ← noting none (ask (·.indexOf v))
  noting (some .changed) (onTableau (Tableau.setColumnBound column bound))
  return v

def addVariableRecord (r : VariableRecord) : Logged Variable := do
  let v ← noting (some .changed) (addVariable r.name r.type)
  if r.type = .binary then pure () else noting (some .changed) (setBound v r.bound)
  return v

def addConstraintRecord (named : List (String × Variable)) (r : ConstraintRecord) :
    Logged Unit := do
  let _ ← noting (some .changed) (addConstraint r.name (some (formOf named r.terms)) r.bound)

def appendDocument (d : Document) : Logged (List Variable) := do
  noting none (ask (·.checkDocument d))
  let objective := (← noting none (ask (·.objectiveLinear))).getD .empty
  let created ← d.vars.mapM addVariableRecord
  d.constraints.forM (addConstraintRecord ((d.vars.map (·.name)).zip created))
  noting (some .changed) (setObjective
    (some (objective.addAll (List.zipWith Term.mk (d.vars.map (·.objective)) created))))
  noting (some .changed) (setDirection d.direction)
  noting none (setTitle setName d.name)
  noting none (setTitle setObjectiveName d.objectiveName)
  return created

def load (files : Files) (name : String) : Logged (List Variable) := do
  let text ← noting none (ask fun _ => files.read name)
  appendDocument (← noting none (ask fun _ => Document.ofJson text))

def restoreBounds (s : BoundSnapshot kind) : Logged Unit :=
  s.bounds.entries.forM fun e => noting (some .changed) (setBound e.1 e.2)

end Logged

def Erases (x : Logged α) (y : Edit α) : Prop := ∀ p log,
  y p = match x (p, log) with
    | .ok a s => .ok a s.1
    | .error e s => .error e s.1

namespace Erases

theorem noting (event : Option Event) (x : Edit α) : Erases (noting event x) x := by
  intro p log
  unfold Problem.noting
  cases x p <;> rfl

theorem pure (a : α) : Erases (pure a : Logged α) (pure a) := fun _ _ => rfl

theorem bind {x : Logged α} {y : Edit α} {f : α → Logged β} {g : α → Edit β} (hx : Erases x y)
    (hf : ∀ a, Erases (f a) (g a)) : Erases (x >>= f) (y >>= g) := by
  intro p log
  have h := hx p log
  cases hr : x (p, log) with
  | ok a s =>
    rw [hr] at h
    simp only [Edit.bind_apply, h, hr]
    exact hf a s.1 s.2
  | error e s =>
    rw [hr] at h
    simp only [Edit.bind_apply, h, hr]

theorem final_fst {x : Logged α} {y : Edit α} (h : Erases x y) (s : Problem × List Event) :
    (Edit.final x s).1 = Edit.final y s.1 := by
  have hs := h s.1 s.2
  unfold Edit.final
  rw [hs]
  cases x s <;> rfl

end Erases

structure Current (s : Problem × List Event) : Prop where
  fitting : s.1.Fitting
  status : s.1.status = Event.statusAfter s.2

structure Notes (x : Logged α) (y : Edit α) : Prop where
  erases : Erases x y
  current : Edit.Keeps Current x

theorem Tells.notes {event : Option Event} {x : Edit α} (h : Tells event x) :
    Notes (noting event x) x := by
  refine ⟨.noting event x, fun s hs => ?_⟩
  have hfitting := h.fitting s.1 hs.fitting
  unfold Edit.final at hfitting
  unfold Edit.final Problem.noting
  cases hr : x s.1 with
  | ok a q =>
    rw [hr] at hfitting
    refine ⟨hfitting, ?_⟩
    rw [Event.statusAfter_append, ← hs.status]
    exact h.done hr
  | error e q =>
    rw [hr] at hfitting
    exact ⟨hfitting, (h.failed hr).trans hs.status⟩

structure Void (s : Problem × List Event) : Prop where
  current : Current s
  status : s.1.status = .unknown

theorem Void.noting {event : Option Event} (he : ∀ e ∈ event, e.status = .unknown) {x : Edit α}
    (h : ∀ p, SameOutcome p (Edit.final x p)) : Edit.Keeps Void (noting event x) := by
  intro s hs
  have hsame := h s.1
  have hlog : Event.statusAfter (s.2 ++ event.toList) = .unknown := by
    rw [Event.statusAfter_append, ← hs.current.status, hs.status]
    cases event with
    | none => rfl
    | some e => exact he e rfl
  unfold Edit.final at hsame
  unfold Edit.final Problem.noting
  cases hr : x s.1 with
  | ok a q =>
    rw [hr] at hsame
    have hq := hsame.status.trans hs.status
    exact ⟨⟨hsame.fitting hs.current.fitting, hq.trans hlog.symm⟩, hq⟩
  | error e q =>
    rw [hr] at hsame
    have hq := hsame.status.trans hs.status
    exact ⟨⟨hsame.fitting hs.current.fitting, hsame.status.trans hs.current.status⟩, hq⟩

theorem noting_ok {event : Option Event} {x : Edit α} {s t : Problem × List Event} {a : α}
    (h : noting event x s = .ok a t) :
    ∃ q, x s.1 = .ok a q ∧ t = (q, s.2 ++ event.toList) := by
  unfold noting at h
  cases hx : x s.1 with
  | ok b q =>
    rw [hx] at h
    cases h
    exact ⟨q, rfl, rfl⟩
  | error e q =>
    rw [hx] at h
    cases h

namespace Notes

theorem change {x : Edit α} (h : ∀ p, Voids x p) : Notes (noting (some .changed) x) x :=
  (Tells.of_voids h).notes

theorem ask (read : Problem → Outcome α) : Notes (noting none (ask read)) (ask read) :=
  (Tells.ask read).notes

theorem title {set : Option String → Edit Unit}
    (h : ∀ name p, SameOutcome p (Edit.final (set name) p)) (name : Option String) :
    Notes (noting none (setTitle set name)) (setTitle set name) :=
  (Tells.of_same fun p => SameOutcome.setTitle h name p).notes

theorem pure (a : α) : Notes (pure a : Logged α) (pure a) := ⟨.pure a, .pure a⟩

theorem bind {x : Logged α} {y : Edit α} {f : α → Logged β} {g : α → Edit β} (hx : Notes x y)
    (hf : ∀ a, Notes (f a) (g a)) : Notes (x >>= f) (y >>= g) :=
  ⟨hx.erases.bind fun a => (hf a).erases, hx.current.bind fun a => (hf a).current⟩

theorem forM {f : α → Logged PUnit} {g : α → Edit PUnit} (hf : ∀ a, Notes (f a) (g a))
    (l : List α) : Notes (l.forM f) (l.forM g) := by
  induction l with
  | nil => exact pure _
  | cons a l ih => exact bind (hf a) fun _ => ih

theorem mapM {f : α → Logged β} {g : α → Edit β} (hf : ∀ a, Notes (f a) (g a)) (l : List α) :
    Notes (l.mapM f) (l.mapM g) := by
  induction l with
  | nil => exact pure _
  | cons a l ih =>
    rw [List.mapM_cons, List.mapM_cons]
    exact bind (hf a) fun b => bind ih fun bs => pure _

theorem addVariableRecord (r : VariableRecord) :
    Notes (Logged.addVariableRecord r) (addVariableRecord r) := by
  unfold Logged.addVariableRecord Problem.addVariableRecord
  refine bind (change (Voids.addVariable r.name r.type)) fun v => ?_
  split
  · exact pure v
  · exact bind (change (Voids.setBound v r.bound)) fun _ => pure v

theorem addConstraintRecord (named : List (String × Variable)) (r : ConstraintRecord) :
    Notes (Logged.addConstraintRecord named r) (addConstraintRecord named r) :=
  bind (change (Voids.addConstraint _ _ _)) fun _ => pure ()

theorem appendDocument (d : Document) : Notes (Logged.appendDocument d) (appendDocument d) := by
  unfold Logged.appendDocument Problem.appendDocument
  refine bind (ask _) fun _ => bind (ask _) fun objective => ?_
  refine bind (mapM addVariableRecord _) fun created => ?_
  refine bind (forM (addConstraintRecord _) _) fun _ => ?_
  refine bind (change (Voids.setObjective _)) fun _ => ?_
  refine bind (change (Voids.setDirection _)) fun _ => ?_
  refine bind (title SameOutcome.setName _) fun _ => ?_
  exact bind (title SameOutcome.setObjectiveName _) fun _ => pure created

theorem load (files : Files) (name : String) : Notes (Logged.load files name) (load files name) :=
  bind (ask _) fun _ => bind (ask _) fun d => appendDocument d

theorem restoreBounds (s : BoundSnapshot kind) : Notes (Logged.restoreBounds s) s.restore := by
  unfold Logged.restoreBounds BoundSnapshot.restore
  apply forM
  exact fun e => change (Voids.setBound e.1 e.2)

theorem addInteger (name : String) (b : Bound) :
    Notes (Logged.addInteger name b) (addInteger name b) := by
  have hadd := change (Voids.addVariable name .integer)
  have hset (column : Nat) := Erases.noting (some .changed)
    (onTableau (Tableau.setColumnBound column b))
  refine ⟨(ask _).erases.bind fun _ => hadd.erases.bind fun v => (ask _).erases.bind fun column =>
    (hset column).bind fun _ => .pure v, (ask _).current.bind fun _ s hs => ?_⟩
  have hcurrent := hadd.current s hs
  cases hx : noting (some .changed) (addVariable name .integer) s with
  | error e t =>
    rw [Edit.final_error hx] at hcurrent
    rwa [Edit.final_bind_error hx]
  | ok v t =>
    obtain ⟨q, hq, rfl⟩ := noting_ok hx
    have hvoid : Void (q, s.2 ++ (some Event.changed).toList) := by
      rw [Edit.final_ok hx] at hcurrent
      exact ⟨hcurrent, (Tells.of_voids (Voids.addVariable name .integer)).done hq⟩
    rw [Edit.final_bind_ok hx]
    have hindex : Edit.Keeps Void (noting none (Problem.ask (·.indexOf v))) :=
      Void.noting (by simp) (SameOutcome.ask _)
    have hbound (column : Nat) : Edit.Keeps Void
        (noting (some .changed) (onTableau (Tableau.setColumnBound column b))) :=
      Void.noting (by rintro _ ⟨⟩; rfl) (SameOutcome.onTableau _)
    exact (hindex.bind (fun column => (hbound column).bind fun _ => .pure v) _ hvoid).current

end Notes

end Noting

end Problem

namespace Operation

open Problem

variable {p : Problem} {op : Operation}

def isPrimitive : Operation → Bool
  | addInteger _ _ | append _ | load _ _ | restoreBounds _ _ => false
  | _ => true

def event? : Operation → Option Event
  | recordSolution status _ => some (.recorded status)
  | dispose _ _ | release _ | setName _ | setObjectiveName _ | rescale _ => none
  | _ => some .changed

def logged : Operation → Logged Answer
  | addInteger name bound => Logged.addInteger name bound >>= fun v => pure (.var v)
  | append d => Logged.appendDocument d >>= fun vs => pure (.vars vs)
  | load files name => Logged.load files name >>= fun vs => pure (.vars vs)
  | restoreBounds _ s => Logged.restoreBounds s >>= fun _ => pure .nothing
  | op => noting op.event? op.perform

theorem tells (hop : op.isPrimitive = true) : Tells op.event? op.perform := by
  cases op with
  | addVariable name type => exact (Tells.of_voids (Voids.addVariable name type)).answered _
  | addConstraint name l b => exact (Tells.of_voids (Voids.addConstraint name l b)).answered _
  | dispose kind h => exact (Tells.dispose h).answered _
  | setVariableType v type => exact (Tells.of_voids (Voids.setVariableType v type)).answered _
  | setBound kind h b => exact (Tells.of_voids (Voids.setBound h b)).answered _
  | setLowerBound kind h lower =>
    have hset (b : Bound) := Tells.of_voids (Voids.setBound h (b.withLower lower))
    exact (Tells.of_ask hset).answered _
  | setUpperBound kind h upper =>
    have hset (b : Bound) := Tells.of_voids (Voids.setBound h (b.withUpper upper))
    exact (Tells.of_ask hset).answered _
  | setLinear c l => exact (Tells.of_voids (Voids.setLinear c l)).answered _
  | setObjective l => exact (Tells.of_voids (Voids.setObjective l)).answered _
  | setDirection direction => exact (Tells.of_voids (Voids.setDirection direction)).answered _
  | setName name => exact (Tells.of_same (SameOutcome.setName name)).answered _
  | setObjectiveName name => exact (Tells.of_same (SameOutcome.setObjectiveName name)).answered _
  | recordSolution status values => exact (Tells.recordSolution status values).answered _
  | release c =>
    exact (Tells.of_ask fun s => (Tells.dispose c).answered fun _ => s).answered _
  | restore s => exact (Tells.of_voids (Voids.addConstraint _ _ _)).answered _
  | rescale digits =>
    refine (Tells.of_same fun p => ?_).answered _
    exact ⟨rfl, rfl, fun kind => by cases kind <;> rfl⟩
  | addInteger name b | append d | load files name | restoreBounds kind s => cases hop

theorem notes (op : Operation) : Notes op.logged op.perform := by
  by_cases hop : op.isPrimitive = true
  · have hlogged : op.logged = noting op.event? op.perform := by
      cases op <;> first | rfl | cases hop
    rw [hlogged]
    exact (tells hop).notes
  · cases op with
    | addInteger name b => exact (Notes.addInteger name b).bind fun _ => .pure _
    | append d => exact (Notes.appendDocument d).bind fun _ => .pure _
    | load files name => exact (Notes.load files name).bind fun _ => .pure _
    | restoreBounds kind s => exact (Notes.restoreBounds s).bind fun _ => .pure _
    | _ => exact absurd rfl hop

/-- The operation disposes an entity, gives a title, or fails without having begun. -/
def Idle (p : Problem) (op : Operation) : Prop :=
  op.disposed?.isSome = true ∨ op.renames = true ∨ op.isPrimitive = true ∧ op.Fails p

theorem Idle.status_eq (h : op.Idle p) : (op.after p).status = p.status := by
  have hnone (hop : op.isPrimitive = true) (he : op.event? = none) :
      (op.after p).status = p.status := by
    have ht := tells hop
    unfold after Edit.final
    cases hx : op.perform p with
    | ok a q =>
      have hq := ht.done hx
      rwa [he] at hq
    | error e q => exact ht.failed hx
  obtain hd | hn | ⟨hop, e, q, he⟩ := h
  · cases op with
    | dispose | release => exact hnone rfl rfl
    | _ => cases hd
  · cases op with
    | setName | setObjectiveName => exact hnone rfl rfl
    | _ => cases hn
  · rw [after, Edit.final_error he]
    exact (tells hop).failed he

def run (ops : List Operation) (p : Problem) : Problem := ops.foldl (fun q op => op.after q) p

def noted (ops : List Operation) (s : Problem × List Event) : Problem × List Event :=
  ops.foldl (fun s op => Edit.final op.logged s) s

theorem noted_fst (ops : List Operation) (s : Problem × List Event) :
    (noted ops s).1 = run ops s.1 := by
  induction ops generalizing s with
  | nil => rfl
  | cons op ops ih =>
    change (noted ops (Edit.final op.logged s)).1 = run ops (op.after s.1)
    rw [ih, op.notes.erases.final_fst]
    rfl

theorem current_noted (ops : List Operation) {s : Problem × List Event} (hs : Current s) :
    Current (noted ops s) := by
  induction ops generalizing s with
  | nil => exact hs
  | cons op ops ih => exact ih (op.notes.current s hs)

end Operation

namespace Problem

theorem current_of_fresh {tableau : Tableau} {id : ProblemId} {p : Problem}
    (h : ofTableau tableau id = .ok p) : Current (p, []) := by
  unfold ofTableau at h
  split at h
  · cases h
    exact ⟨⟨rfl, fun s hs => nomatch hs⟩, rfl⟩
  · cases h

/-- The last event of a run decides the status, and a solution goes with the status that has one. -/
theorem status_of_last_event {tableau : Tableau} {id : ProblemId} {p : Problem}
    (h : ofTableau tableau id = .ok p) (ops : List Operation) :
    ∃ q log, Operation.noted ops (p, []) = (q, log) ∧ q = Operation.run ops p ∧
      (q.solution.isSome = true ↔ q.status = .optimal ∨ q.status = .feasible) ∧
      (∀ s ∈ q.solution, s.Fits q.vars.length q.constraints.length) ∧
      (∀ status ≠ .unknown, q.status = status ↔ log.getLast? = some (.recorded status)) ∧
      ∀ op : Operation, op.Idle q → (op.after q).status = q.status := by
  have hs := Operation.current_noted ops (current_of_fresh h)
  refine ⟨(Operation.noted ops (p, [])).1, (Operation.noted ops (p, [])).2, rfl,
    Operation.noted_fst ops (p, []), ?_, ?_, ?_, fun op hop => hop.status_eq⟩
  · rw [hs.fitting.solved]
    cases (Operation.noted ops (p, [])).1.status <;> simp [Status.hasSolution]
  · rw [vars, constraints, length_handles, length_handles]
    exact hs.fitting.fits
  · intro status hne
    rw [hs.status]
    exact Event.statusAfter_eq_iff hne

theorem status_of_solved_run :
    ∃ q log, Operation.noted [.addVariable "x" .real, .addVariable "y" .real,
        .recordSolution .optimal (some (.ofValues 5 [3, 4])), .dispose .var ⟨⟨0⟩, ⟨0, 0⟩⟩,
        .addInteger "y" .free] (new ⟨0⟩, []) = (q, log) ∧
      log = [.changed, .changed, .recorded .optimal] ∧ q.status = .optimal ∧
      (∀ s ∈ q.solution, s.Fits q.vars.length q.constraints.length) := by
  obtain ⟨q, log, hrun, -, -, hfits, hstatus, -⟩ :=
    @status_of_last_event .empty ⟨0⟩ (new ⟨0⟩) rfl [.addVariable "x" .real, .addVariable "y" .real,
      .recordSolution .optimal (some (.ofValues 5 [3, 4])), .dispose .var ⟨⟨0⟩, ⟨0, 0⟩⟩,
      .addInteger "y" .free]
  have hlog : log = [.changed, .changed, .recorded .optimal] := by
    rw [show log = (q, log).2 from rfl, ← hrun]
    decide +kernel
  refine ⟨q, log, hrun, hlog, (hstatus .optimal nofun).mpr ?_, hfits⟩
  rw [hlog]
  rfl

end Problem

end LinearProgram
