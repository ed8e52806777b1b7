import LinearProgram.Proofs.Document.Recovering
import LinearProgram.Proofs.Pairing.Composing

namespace LinearProgram

inductive Answer.Paired (R : Pairing) : Answer → Answer → Prop
  | nothing : Paired R .nothing .nothing
  | var {v v' : Variable} (hv : R .var v v') : Paired R (.var v) (.var v')
  | constraint {c c' : Constraint} (hc : R .constraint c c') :
    Paired R (.constraint c) (.constraint c')
  | vars {vs vs' : List Variable} (hvs : List.Forall₂ (R .var) vs vs') :
    Paired R (.vars vs) (.vars vs')
  | definition {s s' : ConstraintSnapshot} (hs : ConstraintSnapshot.Paired R s s') :
    Paired R (.definition s) (.definition s')

inductive Operation.Paired (R : Pairing) : Operation → Operation → Prop
  | addVariable (name : String) (type : VarType) :
    Paired R (.addVariable name type) (.addVariable name type)
  | addInteger (name : String) (bound : Bound) :
    Paired R (.addInteger name bound) (.addInteger name bound)
  | addConstraint (name : String) {l l' : Option Linear} (hl : Option.Rel (Linear.Paired R) l l')
    (bound : Bound) : Paired R (.addConstraint name l bound) (.addConstraint name l' bound)
  | dispose {kind : EntityKind} {h h' : Handle kind} (hh : R kind h h') :
    Paired R (.dispose kind h) (.dispose kind h')
  | setVariableType {v v' : Variable} (hv : R .var v v') (type : VarType) :
    Paired R (.setVariableType v type) (.setVariableType v' type)
  | setBound {kind : EntityKind} {h h' : Handle kind} (hh : R kind h h') (bound : Bound) :
    Paired R (.setBound kind h bound) (.setBound kind h' bound)
  | setLowerBound {kind : EntityKind} {h h' : Handle kind} (hh : R kind h h')
    (lower : Option Float) : Paired R (.setLowerBound kind h lower) (.setLowerBound kind h' lower)
  | setUpperBound {kind : EntityKind} {h h' : Handle kind} (hh : R kind h h')
    (upper : Option Float) : Paired R (.setUpperBound kind h upper) (.setUpperBound kind h' upper)
  | setLinear {c c' : Constraint} (hc : R .constraint c c') {l l' : Option Linear}
    (hl : Option.Rel (Linear.Paired R) l l') : Paired R (.setLinear c l) (.setLinear c' l')
  | setObjective {l l' : Option Linear} (hl : Option.Rel (Linear.Paired R) l l') :
    Paired R (.setObjective l) (.setObjective l')
  | setDirection (direction : Direction) :
    Paired R (.setDirection direction) (.setDirection direction)
  | setName (name : Option String) : Paired R (.setName name) (.setName name)
  | setObjectiveName (name : Option String) :
    Paired R (.setObjectiveName name) (.setObjectiveName name)
  | recordSolution (status : Status) (values : Option Solution) :
    Paired R (.recordSolution status values) (.recordSolution status values)
  | append (d : Document) : Paired R (.append d) (.append d)
  | load (files : Files) (name : String) : Paired R (.load files name) (.load files name)
  | restoreBounds {kind : EntityKind} {s s' : BoundSnapshot kind} (hs : s.Paired R s') :
    Paired R (.restoreBounds kind s) (.restoreBounds kind s')
  | release {c c' : Constraint} (hc : R .constraint c c') : Paired R (.release c) (.release c')
  | restore {s s' : ConstraintSnapshot} (hs : ConstraintSnapshot.Paired R s s') :
    Paired R (.restore s) (.restore s')
  | rescale (digits : UInt32) : Paired R (.rescale digits) (.rescale digits)

namespace Problem

variable {R : Pairing} {p q p' q' : Problem} {m n : Nat}

theorem Alike.perform (h : Alike R n p q) {op op' : Operation} (hop : op.Paired R op')
    (hroom : (op.after p).InCapacity) (hn : n + op.disposals p < Table.generations) :
    Accord R (n + op.disposals p) Answer.Paired p q op.perform op'.perform := by
  unfold Operation.after at hroom
  cases hop with
  | addVariable name type =>
    rw [Operation.perform, Edit.final_bind_pure] at hroom
    exact (h.addVariable type hroom).answered fun _ _ _ hv => .var hv
  | addInteger name bound =>
    rw [Operation.perform, Edit.final_bind_pure] at hroom
    exact (h.addInteger hroom).answered fun _ _ _ hv => .var hv
  | addConstraint name hl bound =>
    rw [Operation.perform, Edit.final_bind_pure] at hroom
    exact (h.addConstraint hl hroom).answered fun _ _ _ hc => .constraint hc
  | dispose hh => exact (h.dispose hh hn).answered fun _ _ _ _ => .nothing
  | setVariableType hv type => exact (h.setVariableType hv type).answered fun _ _ _ _ => .nothing
  | setBound hh bound => exact (h.setBound hh bound).answered fun _ _ _ _ => .nothing
  | setLowerBound hh lower => exact (h.setLowerBound hh lower).answered fun _ _ _ _ => .nothing
  | setUpperBound hh upper => exact (h.setUpperBound hh upper).answered fun _ _ _ _ => .nothing
  | setLinear hc hl => exact (h.setLinear hc hl).answered fun _ _ _ _ => .nothing
  | setObjective hl => exact (h.setObjective hl).answered fun _ _ _ _ => .nothing
  | setDirection direction => exact (h.setDirection direction).answered fun _ _ _ _ => .nothing
  | setName name => exact (h.setName name).answered fun _ _ _ _ => .nothing
  | setObjectiveName name => exact (h.setObjectiveName name).answered fun _ _ _ _ => .nothing
  | recordSolution status values =>
    exact (h.recordSolution status values).answered fun _ _ _ _ => .nothing
  | append d =>
    rw [Operation.perform, Edit.final_bind_pure] at hroom
    exact (twin_appendDocument d R n p q le_rfl h hroom).answered fun _ _ _ hvs => .vars hvs
  | load files name =>
    rw [Operation.perform, Edit.final_bind_pure] at hroom
    exact (twin_load files name R n p q le_rfl h hroom).answered fun _ _ _ hvs => .vars hvs
  | restoreBounds hs =>
    rw [Operation.perform, Edit.final_bind_pure] at hroom
    exact (twin_restoreBounds hs R n p q le_rfl h hroom).answered fun _ _ _ _ => .nothing
  | release hc => exact (h.release hc hn).answered fun _ _ _ hs => .definition hs
  | @restore s s' hs =>
    rw [Operation.perform, Edit.final_bind_pure] at hroom
    obtain ⟨name, linear, bound⟩ := s
    obtain ⟨name', linear', bound'⟩ := s'
    obtain ⟨hname, hl, hbound⟩ := hs
    cases hname
    cases hbound
    exact (h.addConstraint hl hroom).answered fun _ _ _ hc => .constraint hc
  | rescale digits => exact (h.rescale digits).answered fun _ _ _ _ => .nothing

def Initial (p q : Problem) : Pairing := fun kind h h' =>
  Abreast p q kind h h' ∨ h = h' ∧ h.problem ≠ p.id ∧ h.problem ≠ q.id

/-- `p'` and `q'` come from `p` and `q` by the same operations on paired handles, with `n`
disposals. Handles that are made on the way are paired by position. -/
inductive Together (p q : Problem) : Nat → Pairing → Problem → Problem → Prop
  | start : Together p q 0 (Initial p q) p q
  | step {n : Nat} {R : Pairing} {p' q' : Problem} (h : Together p q n R p' q')
    {op op' : Operation} (hop : op.Paired R op') (hroom : (op.after p').InCapacity) :
    Together p q (n + op.disposals p') (R ⊔ Abreast (op.after p') (op'.after q')) (op.after p')
      (op'.after q')

theorem alike_initial (hp : p.Consistent) (hq : q.Consistent) (hsame : SameContents p q) :
    Alike (Initial p q) 0 p q := by
  have hforeign : Pairing.OneToOne fun kind h h' =>
      h = h' ∧ h.problem ≠ p.id ∧ h.problem ≠ q.id := by
    intro kind
    constructor
    · rintro a b c ⟨rfl, -⟩ ⟨rfl, -⟩
      rfl
    · rintro a b c ⟨rfl, -⟩ ⟨rfl, -⟩
      rfl
  have halike := Alike.of_stands hforeign hp hq hsame (n := 0) (by decide) (by
    rintro kind h h' ⟨rfl, hp, hq⟩
    exact .foreign hp hq)
  rwa [sup_comm] at halike

theorem Together.alike (h : Together p q n R p' q') (hpq : Alike (Initial p q) 0 p q)
    (hn : n < Table.generations) : Alike R n p' q' := by
  induction h with
  | start => exact hpq
  | step _ hop hroom ih => exact ((ih (by omega)).perform hop hroom hn).alike

/-- History does not show. -/
theorem indistinct_of_together (hp : p.Reachable) (hq : q.Reachable)
    (hdocument : p.toDocument = q.toDocument) (hscale : p.valueScale = q.valueScale)
    (hstatus : p.status = q.status) (hsolution : p.solution = q.solution)
    (h : Together p q n R p' q') (hn : n < Table.generations) :
    R.OneToOne ∧ Indistinct R p' q' ∧
      ∀ op op' : Operation, op.Paired R op' → (op.after p').InCapacity →
        n + op.disposals p' < Table.generations →
          Outcome.Paired (Answer.Paired (R ⊔ Abreast (op.after p') (op'.after q')))
            (Edit.outcome op.perform p') (Edit.outcome op'.perform q') := by
  rw [hp.consistent.toDocument_eq, hq.consistent.toDocument_eq, Except.ok.injEq] at hdocument
  have hsame : SameContents p q :=
    ⟨tableau_eq_of_description hp hq hdocument, congrArg Document.name hdocument,
      congrArg Document.objectiveName hdocument, hstatus, hsolution, hscale⟩
  have halike := h.alike (alike_initial hp.consistent hq.consistent hsame) hn
  refine ⟨halike.oneToOne, halike.indistinct, fun op op' hop hroom hfew => ?_⟩
  exact (halike.perform hop hroom hfew).answers

def direct : Problem :=
  let y : Variable := ⟨⟨1⟩, ⟨0, 0⟩⟩
  (Operation.addConstraint "c" (some (.ofTerms [⟨2, y⟩])) .free).after <|
    (Operation.addVariable "y" .binary).after (.new ⟨1⟩)

theorem reachable_direct : direct.Reachable := by
  refine .step _ (.step _ (reachable_new ⟨1⟩) ?_) ?_
  all_goals decide +kernel

set_option maxRecDepth 4096 in
theorem toDocument_direct : thinned.toDocument = direct.toDocument := by
  rw [reachable_thinned.consistent.toDocument_eq, reachable_direct.consistent.toDocument_eq]
  rfl

theorem indistinct_direct :
    let y : Variable := ⟨⟨0⟩, ⟨1, 0⟩⟩
    let y' : Variable := ⟨⟨1⟩, ⟨0, 0⟩⟩
    let p := (Operation.addVariable "z" .real).after ((Operation.dispose .var y).after thinned)
    let q := (Operation.addVariable "z" .real).after ((Operation.dispose .var y').after direct)
    p.vars = [⟨⟨0⟩, ⟨1, 1⟩⟩] ∧ q.vars = [⟨⟨1⟩, ⟨0, 1⟩⟩] ∧ ∃ n R,
      (Together thinned direct n R p q ∧ n < Table.generations) ∧
        R.OneToOne ∧ Indistinct R p q ∧
          ∀ op op' : Operation, op.Paired R op' → (op.after p).InCapacity →
            n + op.disposals p < Table.generations →
              Outcome.Paired (Answer.Paired (R ⊔ Abreast (op.after p) (op'.after q)))
                (Edit.outcome op.perform p) (Edit.outcome op'.perform q) := by
  intro y y' p q
  have hy : Initial thinned direct .var y y' :=
    .inl ⟨0, by decide +kernel, by decide +kernel⟩
  have hdispose := Together.start.step (.dispose hy) (by decide +kernel)
  have h : Together thinned direct _ _ p q :=
    hdispose.step (.addVariable "z" .real) (by decide +kernel)
  have hn : 0 + (Operation.dispose .var y).disposals thinned + 0 < Table.generations := by
    decide +kernel
  have hsolution : thinned.solution = direct.solution := by
    have hp : thinned.solution.isNone = true := by decide +kernel
    have hq : direct.solution.isNone = true := by decide +kernel
    rw [Option.isNone_iff_eq_none.mp hp, Option.isNone_iff_eq_none.mp hq]
  exact ⟨by decide +kernel, by decide +kernel, _, _, ⟨h, hn⟩,
    indistinct_of_together reachable_thinned reachable_direct toDocument_direct
      (by decide +kernel) (by decide +kernel) hsolution h hn⟩

end Problem

end LinearProgram
