import LinearProgram.Problem.Basic

namespace LinearProgram.Problem

variable {kind : EntityKind}

def nameAt (p : Problem) : EntityKind → Nat → Outcome String
  | .var, i => Outcome.ofDefect ((p.tableau.column i).map (·.name))
  | .constraint, i => Outcome.ofDefect ((p.tableau.row i).map (·.name))

def nameOf (p : Problem) (h : Handle kind) : Outcome String := do
  let i ← p.indexOf h
  let name ← p.nameAt kind i
  if (p.table kind).nameOf? h.key = some name then pure name else Outcome.broken .misnamed

def boundAt (p : Problem) : EntityKind → Nat → Outcome Bound
  | .var, i => Outcome.ofDefect ((p.tableau.column i).map (·.bound))
  | .constraint, i => Outcome.ofDefect ((p.tableau.row i).map (·.bound))

def bound (p : Problem) (h : Handle kind) : Outcome Bound := do
  p.boundAt kind (← p.indexOf h)

def lowerBound (p : Problem) (h : Handle kind) : Outcome (Option Float) := do
  return (← p.bound h).lower

def upperBound (p : Problem) (h : Handle kind) : Outcome (Option Float) := do
  return (← p.bound h).upper

def kindAt (p : Problem) (column : Nat) : Outcome ColumnKind :=
  Outcome.ofDefect ((p.tableau.column column).map (·.kind))

def variableType (p : Problem) (v : Variable) : Outcome VarType := do
  let c ← Outcome.ofDefect (p.tableau.column (← p.indexOf v))
  return match c.kind with
    | .continuous => .real
    | .integer => if c.bound == .binary then .binary else .integer

def isMip (p : Problem) : Outcome Bool :=
  (List.range p.columns.size).allM fun column => do return (← p.kindAt column) == .integer

def entriesOf (p : Problem) (c : Constraint) : Outcome (List Entry) := do
  return (← Outcome.ofDefect (p.tableau.row (← p.indexOf c))).entries

def termOf (p : Problem) (e : Entry) : Outcome Term := do
  return ⟨e.coefficient, ← p.variableOf e.column⟩

def linear (p : Problem) (c : Constraint) : Outcome (Option Linear) := do
  match ← p.entriesOf c with
  | [] => return none
  | entries => return some (.ofTerms (← entries.mapM p.termOf))

def isEmpty (p : Problem) (c : Constraint) : Outcome Bool := do
  return (← p.entriesOf c).isEmpty

def dense (column : Nat) : List Float → List Entry
  | [] => []
  | x :: xs => ⟨column, x⟩ :: dense (column + 1) xs

def objectiveTerms (p : Problem) : Outcome (List Term) :=
  (Entry.stored (dense 0 p.tableau.objective)).mapM p.termOf

def objectiveLinear (p : Problem) : Outcome (Option Linear) := do
  let l := Linear.ofTerms (← p.objectiveTerms)
  return if l.isEmpty then none else some l

def direction (p : Problem) : Direction := p.tableau.direction

end LinearProgram.Problem
