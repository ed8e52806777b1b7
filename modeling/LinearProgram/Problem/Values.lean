import LinearProgram.Number.Rounding
import LinearProgram.Problem.Basic

namespace LinearProgram.Problem

variable {kind : EntityKind}

def accepted (p : Problem) (status : Status) (values : Option Solution) :
    Outcome (Option Solution) :=
  if status.hasSolution then
    match values with
    | none => Outcome.refuseFault (.valuesMissing status)
    | some s => do
      s.validate p.columns.size p.rows.size
      return some s
  else pure none

def recordSolution (status : Status) (values : Option Solution) : Edit Unit := do
  let solution ← ask (·.accepted status values)
  modify fun p => { p with status := status, solution := solution }

def currentSolution (p : Problem) : Outcome Solution :=
  match p.solution with
  | some s => if p.status.hasSolution then pure s
    else Outcome.refuse (.unavailable (.status p.status))
  | none => Outcome.refuse (.unavailable (.status p.status))

def valueAt (xs : List Float) (i : Nat) : Outcome Float :=
  match xs[i]? with
  | some x => pure x
  | none => Outcome.broken (.noValue i)

def objectiveValue (p : Problem) : Outcome Float := do
  return roundToDigits (← p.currentSolution).objective p.valueScale

/-- The sum over a row, in its order. An empty sum is a negative zero. -/
def activity (xs : List Float) (entries : List Entry) : Outcome Float :=
  entries.foldlM (fun sum e => do return sum + e.coefficient * (← valueAt xs e.column)) (-0.0)

def rawValueAt (p : Problem) (s : Solution) : EntityKind → Nat → Outcome Float
  | .var, i => valueAt s.columns i
  | .constraint, i => do activity s.columns (← Outcome.ofDefect (p.tableau.row i)).entries

def value (p : Problem) (h : Handle kind) : Outcome Float := do
  let i ← p.indexOf h
  let s ← p.currentSolution
  return roundToDigits (← p.rawValueAt s kind i) p.valueScale

def duals (s : Solution) : EntityKind → Option (List Float)
  | .var => s.columnDuals
  | .constraint => s.rowDuals

def dual (p : Problem) (h : Handle kind) : Outcome Float := do
  let i ← p.indexOf h
  let s ← p.currentSolution
  match duals s kind with
  | some xs => valueAt xs i
  | none => Outcome.refuse (.unavailable .duals)

end LinearProgram.Problem
