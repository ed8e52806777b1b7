import LinearProgram.Proofs.Problem.Preservation

namespace LinearProgram

inductive Operation where
  | addVariable (name : String) (type : VarType)
  | addInteger (name : String) (bound : Bound)
  | addConstraint (name : String) (l : Option Linear) (bound : Bound)
  | dispose (kind : EntityKind) (h : Handle kind)
  | setVariableType (v : Variable) (type : VarType)
  | setBound (kind : EntityKind) (h : Handle kind) (bound : Bound)
  | setLowerBound (kind : EntityKind) (h : Handle kind) (lower : Option Float)
  | setUpperBound (kind : EntityKind) (h : Handle kind) (upper : Option Float)
  | setLinear (c : Constraint) (l : Option Linear)
  | setObjective (l : Option Linear)
  | setDirection (direction : Direction)
  | setName (name : Option String)
  | setObjectiveName (name : Option String)
  | recordSolution (status : Status) (values : Option Solution)
  | append (d : Document)
  | load (files : Files) (name : String)
  | restoreBounds (kind : EntityKind) (s : BoundSnapshot kind)
  | release (c : Constraint)
  | restore (s : ConstraintSnapshot)
  | rescale (digits : UInt32)

inductive Answer where
  | nothing
  | var (v : Variable)
  | constraint (c : Constraint)
  | vars (vs : List Variable)
  | definition (s : ConstraintSnapshot)

namespace Operation

open Problem (Edit Consistent KeepsConsistent)

def perform : Operation → Edit Answer
  | addVariable name type => Problem.addVariable name type >>= fun v => pure (.var v)
  | addInteger name bound => Problem.addInteger name bound >>= fun v => pure (.var v)
  | addConstraint name l bound =>
    Problem.addConstraint name l bound >>= fun c => pure (.constraint c)
  | dispose _ h => Problem.dispose h >>= fun _ => pure .nothing
  | setVariableType v type => Problem.setVariableType v type >>= fun _ => pure .nothing
  | setBound _ h bound => Problem.setBound h bound >>= fun _ => pure .nothing
  | setLowerBound _ h lower => Problem.setLowerBound h lower >>= fun _ => pure .nothing
  | setUpperBound _ h upper => Problem.setUpperBound h upper >>= fun _ => pure .nothing
  | setLinear c l => Problem.setLinear c l >>= fun _ => pure .nothing
  | setObjective l => Problem.setObjective l >>= fun _ => pure .nothing
  | setDirection direction => Problem.setDirection direction >>= fun _ => pure .nothing
  | setName name => Problem.setName name >>= fun _ => pure .nothing
  | setObjectiveName name => Problem.setObjectiveName name >>= fun _ => pure .nothing
  | recordSolution status values => Problem.recordSolution status values >>= fun _ => pure .nothing
  | append d => Problem.appendDocument d >>= fun vs => pure (.vars vs)
  | load files name => Problem.load files name >>= fun vs => pure (.vars vs)
  | restoreBounds _ s => s.restore >>= fun _ => pure .nothing
  | release c => ConstraintSnapshot.release c >>= fun s => pure (.definition s)
  | restore s => s.restore >>= fun c => pure (.constraint c)
  | rescale digits => (modify fun p => p.withScale digits) >>= fun _ => pure .nothing

def after (op : Operation) (p : Problem) : Problem := Edit.final op.perform p

variable {p : Problem}

theorem keeps_of_answered {α : Type} {x : Edit α} {f : α → Answer} (h : KeepsConsistent x p) :
    KeepsConsistent (x >>= fun a => pure (f a)) p := by
  unfold KeepsConsistent
  rw [Edit.final_bind_pure]
  exact h

theorem consistent_after (hp : p.Consistent) (op : Operation) (hroom : (op.after p).InCapacity) :
    (op.after p).Consistent := by
  suffices h : KeepsConsistent op.perform p from h hroom
  cases op with
  | addVariable name type => exact keeps_of_answered (hp.after_addVariable name type)
  | addInteger name b => exact keeps_of_answered (hp.after_addInteger name b)
  | addConstraint name l b => exact keeps_of_answered (hp.after_addConstraint name l b)
  | dispose _ h => exact keeps_of_answered (hp.after_dispose h)
  | setVariableType v type => exact keeps_of_answered (hp.after_setVariableType v type)
  | setBound _ h b => exact keeps_of_answered (hp.after_setBound h b)
  | setLowerBound _ h lower => exact keeps_of_answered (hp.after_setLowerBound h lower)
  | setUpperBound _ h upper => exact keeps_of_answered (hp.after_setUpperBound h upper)
  | setLinear c l => exact keeps_of_answered (hp.after_setLinear c l)
  | setObjective l => exact keeps_of_answered (hp.after_setObjective l)
  | setDirection direction => exact keeps_of_answered (hp.after_setDirection direction)
  | setName name => exact keeps_of_answered (hp.after_setName name)
  | setObjectiveName name => exact keeps_of_answered (hp.after_setObjectiveName name)
  | recordSolution status values => exact keeps_of_answered (hp.after_recordSolution status values)
  | append d => exact keeps_of_answered (hp.after_preserving (.appendDocument d))
  | load files name => exact keeps_of_answered (hp.after_preserving (.load files name))
  | restoreBounds _ s => exact keeps_of_answered (hp.after_preserving (.restoreBounds s))
  | release c => exact keeps_of_answered (hp.after_release c)
  | restore s => exact keeps_of_answered (hp.after_addConstraint _ _ _)
  | rescale digits =>
    intro _
    refine ⟨fun kind => ?_, hp.sound, hp.title, hp.objectiveTitle, hp.solved, hp.fits⟩
    have hl := hp.lists kind
    cases kind <;> exact hl

end Operation

namespace Problem

/-- The states that operations lead to from a fresh problem, as long as there are not more entities
than slots. -/
inductive Reachable : Problem → Prop
  | start {tableau : Tableau} {id : ProblemId} {p : Problem} (h : ofTableau tableau id = .ok p) :
    Reachable p
  | step {p : Problem} (op : Operation) (hp : Reachable p) (hroom : (op.after p).InCapacity) :
    Reachable (op.after p)

theorem reachable_new (id : ProblemId) : (new id).Reachable :=
  @Reachable.start .empty id _ rfl

theorem consistent_of_fresh {tableau : Tableau} {id : ProblemId} {p : Problem}
    (h : ofTableau tableau id = .ok p) : p.Consistent := by
  unfold ofTableau at h
  split at h
  · rename_i he
    simp only [Bool.and_eq_true, List.isEmpty_iff] at he
    cases h
    refine ⟨fun kind => ?_, ?_, rfl, rfl, rfl, fun s hs => nomatch hs⟩
    · have hl := Table.lists_empty
      cases kind <;> simpa [Tableau.names, table, new, he]
    · apply Tableau.Sound.of_parts <;> simp [he]
  · cases h

theorem Reachable.consistent {p : Problem} (h : Reachable p) : p.Consistent := by
  induction h with
  | start h => exact consistent_of_fresh h
  | step op _ hroom ih => exact op.consistent_after ih hroom

theorem Reachable.inCapacity {p : Problem} (h : Reachable p) : p.InCapacity := by
  cases h with
  | start h =>
    unfold ofTableau at h
    split at h
    · cases h
      intro kind
      cases kind <;> exact Nat.zero_le _
    · cases h
  | step op hp hroom => exact hroom

def thinned : Problem :=
  let x : Variable := ⟨⟨0⟩, ⟨0, 0⟩⟩
  let y : Variable := ⟨⟨0⟩, ⟨1, 0⟩⟩
  (Operation.dispose .var x).after <|
    (Operation.addConstraint "c" (some (.ofTerms [⟨1, x⟩, ⟨2, y⟩])) .free).after <|
      (Operation.addVariable "y" .binary).after <|
        (Operation.addVariable "x" .real).after (.new ⟨0⟩)

theorem reachable_thinned : thinned.Reachable := by
  refine .step _ (.step _ (.step _ (.step _ (reachable_new ⟨0⟩) ?_) ?_) ?_) ?_
  all_goals decide +kernel

end Problem

end LinearProgram
