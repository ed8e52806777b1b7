import LinearProgram.Linear
import LinearProgram.Solution
import LinearProgram.Table
import LinearProgram.Tableau

/-!
Problems: a tableau, the handles of its columns and rows, and the outcome of the last solve.

Reading from a problem is an `Outcome`, changing it an `Edit`. A failed edit leaves what it had
changed by then, so an edit checks all its arguments first.
-/

namespace LinearProgram

structure Problem where
  id : ProblemId
  tableau : Tableau
  columns : Table
  rows : Table
  name : Option String
  objectiveName : Option String
  status : Status
  solution : Option Solution
  valueScale : UInt32

namespace Problem

def defaultScale : UInt32 := 9

def new (id : ProblemId) : Problem :=
  ⟨id, .empty, .empty, .empty, none, none, .unknown, none, defaultScale⟩

def ofTableau (tableau : Tableau) (id : ProblemId) : Outcome Problem :=
  if tableau.columns.isEmpty && tableau.rows.isEmpty then pure { new id with tableau := tableau }
  else Outcome.broken (.inUse tableau.columns.length tableau.rows.length)

def withScale (p : Problem) (digits : UInt32) : Problem := { p with valueScale := digits }

abbrev Edit (α : Type) := EStateM (Failure Error) Problem α

variable {kind : EntityKind} {α : Type}

def table (p : Problem) : EntityKind → Table
  | .var => p.columns
  | .constraint => p.rows

def withTable (p : Problem) : EntityKind → Table → Problem
  | .var, t => { p with columns := t }
  | .constraint, t => { p with rows := t }

def ask (read : Problem → Outcome α) : Edit α := fun p =>
  match read p with
  | .ok a => .ok a p
  | .error failure => .error failure p

def onTableau (edit : Tableau.Edit α) : Edit α := fun p =>
  match edit p.tableau with
  | .ok a t => .ok a { p with tableau := t }
  | .error defect t => .error (.broken defect) { p with tableau := t }

def onTable (kind : EntityKind) (edit : Table.Edit α) : Edit α := fun p =>
  match edit (p.table kind) with
  | .ok a t => .ok a (p.withTable kind t)
  | .error defect t => .error (.broken defect) (p.withTable kind t)

def handles (p : Problem) (kind : EntityKind) : List (Handle kind) :=
  (p.table kind).order.map (Handle.mk p.id)

def vars (p : Problem) : List Variable := p.handles .var

def constraints (p : Problem) : List Constraint := p.handles .constraint

def handleAt? (p : Problem) (kind : EntityKind) (index : Nat) : Option (Handle kind) :=
  ((p.table kind).keyAt? index).map (Handle.mk p.id)

def checkOwner (p : Problem) (h : Handle kind) : Outcome Unit :=
  if h.problem = p.id then pure () else Outcome.refuseFault (.foreignHandle kind)

def indexOf (p : Problem) (h : Handle kind) : Outcome Nat := do
  p.checkOwner h
  match (p.table kind).indexOf? h.key with
  | some i => pure i
  | none => Outcome.refuse .disposed

def isDisposed (p : Problem) (h : Handle kind) : Bool :=
  h.problem ≠ p.id || !(p.table kind).contains h.key

def checkLength (name : String) : Outcome Unit :=
  if nameLimit < name.utf8ByteSize then Outcome.refuseFault .nameTooLong else pure ()

def checkName (p : Problem) (kind : EntityKind) (name : String) : Outcome Unit :=
  if (p.table kind).isNameAvailable name then checkLength name
  else Outcome.refuse (.duplicateName kind name)

def resolveTerm (p : Problem) (t : Term) : Outcome Entry :=
  if t.coefficient.isNaN then Outcome.refuseFault .coefficientNaN
  else
    match p.indexOf t.var with
    | .ok column => .ok ⟨column, t.coefficient⟩
    | .error (.refused .disposed) => Outcome.refuseFault .disposedTerm
    | .error failure => .error failure

def resolve (p : Problem) : Option Linear → Outcome (List Entry)
  | some l => l.terms.mapM p.resolveTerm
  | none => pure []

def variableOf (p : Problem) (column : Nat) : Outcome Variable :=
  match p.handleAt? .var column with
  | some v => pure v
  | none => Outcome.broken (.orphanColumn column)

end Problem

end LinearProgram
