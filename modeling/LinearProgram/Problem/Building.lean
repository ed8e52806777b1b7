import LinearProgram.Problem.Reading

/-!
Adding, changing and disposing variables and constraints, and setting the objective.

A change of the model makes the recorded solution void. Disposing does not: what is left keeps its
values.
-/

namespace LinearProgram.Problem

variable {kind : EntityKind}

def invalidate : Edit Unit := modify fun p => { p with status := .unknown, solution := none }

def applyType (column : Nat) : VarType → Edit Unit
  | .binary => do
    onTableau (Tableau.setColumnKind column .integer)
    onTableau (Tableau.setColumnBound column .binary)
  | .integer => onTableau (Tableau.setColumnKind column .integer)
  | .real => onTableau (Tableau.setColumnKind column .continuous)

def addVariable (name : String) (type : VarType) : Edit Variable := do
  ask (·.checkName .var name)
  let column ← onTableau (Tableau.addColumn name)
  let key ← onTable .var (Table.insert name column)
  applyType column type
  invalidate
  return ⟨(← get).id, key⟩

def addBinary (name : String) : Edit Variable := addVariable name .binary

def addInteger (name : String) (bound : Bound) : Edit Variable := do
  ask fun _ => bound.validate
  let v ← addVariable name .integer
  let column ← ask (·.indexOf v)
  onTableau (Tableau.setColumnBound column bound)
  return v

def addConstraint (name : String) (l : Option Linear) (bound : Bound) : Edit Constraint := do
  ask (·.checkName .constraint name)
  let entries ← ask (·.resolve l)
  ask fun _ => bound.validate
  let row ← onTableau (Tableau.addRow name entries bound)
  let key ← onTable .constraint (Table.insert name row)
  invalidate
  return ⟨(← get).id, key⟩

def deleteAt : EntityKind → Nat → Edit Unit
  | .var, i => onTableau (Tableau.deleteColumns [i])
  | .constraint, i => onTableau (Tableau.deleteRows [i])

/-- Removes an entity with its column or row. Once is enough: a second time nothing happens. -/
def dispose (h : Handle kind) : Edit Unit := do
  ask (·.checkOwner h)
  match ((← get).table kind).indexOf? h.key with
  | none => pure ()
  | some i =>
    deleteAt kind i
    let _ ← onTable kind (Table.remove h.key)
    modify fun p => { p with solution := p.solution.map (·.without kind i) }

def setVariableType (v : Variable) (type : VarType) : Edit Unit := do
  let column ← ask (·.indexOf v)
  applyType column type
  invalidate

def setBoundAt : EntityKind → Nat → Bound → Edit Unit
  | .var, i, b => onTableau (Tableau.setColumnBound i b)
  | .constraint, i, b => onTableau (Tableau.setRowBound i b)

def setBound (h : Handle kind) (b : Bound) : Edit Unit := do
  let i ← ask (·.indexOf h)
  ask fun _ => b.validate
  setBoundAt kind i b
  invalidate

def setLowerBound (h : Handle kind) (lower : Option Float) : Edit Unit := do
  setBound h ((← ask (·.bound h)).withLower lower)

def setUpperBound (h : Handle kind) (upper : Option Float) : Edit Unit := do
  setBound h ((← ask (·.bound h)).withUpper upper)

def setLinear (c : Constraint) (l : Option Linear) : Edit Unit := do
  let row ← ask (·.indexOf c)
  let entries ← ask (·.resolve l)
  onTableau (Tableau.setEntries row entries)
  invalidate

def spread : List Entry → List Float → Outcome (List Float)
  | [], xs => pure xs
  | e :: es, xs =>
    if e.column < xs.length then spread es (xs.set e.column e.coefficient)
    else Outcome.broken (.noColumn e.column)

def setObjective (l : Option Linear) : Edit Unit := do
  let entries ← ask (·.resolve l)
  let coefficients ← ask fun p => spread entries (List.replicate p.columns.size 0)
  onTableau (Tableau.setObjective coefficients)
  invalidate

def setDirection (direction : Direction) : Edit Unit := do
  onTableau (Tableau.setDirection direction)
  invalidate

def checkTitle : Option String → Outcome Unit
  | some name => checkLength name
  | none => pure ()

def setObjectiveName (name : Option String) : Edit Unit := do
  ask fun _ => checkTitle name
  modify fun p => { p with objectiveName := name }

def setName (name : Option String) : Edit Unit := do
  ask fun _ => checkTitle name
  modify fun p => { p with name := name }

end LinearProgram.Problem
