import LinearProgram.Document.Basic
import LinearProgram.Problem.Building

namespace LinearProgram.Problem

def variableRecord (p : Problem) (objective : Linear) (v : Variable) : Outcome VariableRecord := do
  let name ← p.nameOf v
  let type ← p.variableType v
  let bound ← p.bound v
  return ⟨name, type, bound, (objective.coefficient? v).getD 0⟩

def namedTerm (p : Problem) (t : Term) : Outcome (String × Float) := do
  return (← p.nameOf t.var, t.coefficient)

def constraintRecord (p : Problem) (c : Constraint) : Outcome ConstraintRecord := do
  let terms ← match ← p.linear c with
    | some l => l.terms.mapM p.namedTerm
    | none => pure []
  let name ← p.nameOf c
  let bound ← p.bound c
  return ⟨name, bound, terms⟩

def toDocument (p : Problem) : Outcome Document := do
  let objective := (← p.objectiveLinear).getD .empty
  let vars ← p.vars.mapM (p.variableRecord objective)
  let constraints ← p.constraints.mapM p.constraintRecord
  return ⟨p.name, p.objectiveName, p.direction, vars, constraints⟩

def checkRecordName (p : Problem) (kind : EntityKind) (before : List String) (name : String) :
    Outcome Unit := do
  p.checkName kind name
  if before.contains name then Outcome.refuse (.duplicateName kind name) else pure ()

def checkCoefficient (x : Float) : Outcome Unit :=
  if x.isNaN then Outcome.refuseFault .coefficientNaN else pure ()

def checkVariables (p : Problem) (before : List String) : List VariableRecord → Outcome Unit
  | [] => pure ()
  | r :: records => do
    p.checkRecordName .var before r.name
    if r.type = .binary then pure () else r.bound.validate
    checkCoefficient r.objective
    checkVariables p (r.name :: before) records

def checkTerm (known : List String) (constraint : String) (t : String × Float) : Outcome Unit :=
  if known.contains t.1 then checkCoefficient t.2
  else Outcome.refuse (.malformed (.unknownVariable constraint t.1))

def checkConstraints (p : Problem) (known before : List String) :
    List ConstraintRecord → Outcome Unit
  | [] => pure ()
  | r :: records => do
    p.checkRecordName .constraint before r.name
    r.bound.validate
    r.terms.forM (checkTerm known r.name)
    checkConstraints p known (r.name :: before) records

def checkDocument (p : Problem) (d : Document) : Outcome Unit := do
  p.checkVariables [] d.vars
  p.checkConstraints (d.vars.map (·.name)) [] d.constraints
  checkTitle d.name
  checkTitle d.objectiveName

def addVariableRecord (r : VariableRecord) : Edit Variable := do
  let v ← addVariable r.name r.type
  if r.type = .binary then pure () else setBound v r.bound
  return v

def formOf (named : List (String × Variable)) (terms : List (String × Float)) : Linear :=
  .ofTerms (terms.filterMap fun t => (named.lookup t.1).map fun v => ⟨t.2, v⟩)

def addConstraintRecord (named : List (String × Variable)) (r : ConstraintRecord) : Edit Unit := do
  let _ ← addConstraint r.name (some (formOf named r.terms)) r.bound

def setTitle (set : Option String → Edit Unit) (name : Option String) : Edit Unit :=
  if name.isSome then set name else pure ()

/-- Adds what a document describes. Its objective is added to the one there is, its direction
replaces the one there is. The answer is the new variables. -/
def appendDocument (d : Document) : Edit (List Variable) := do
  ask (·.checkDocument d)
  let objective := (← ask (·.objectiveLinear)).getD .empty
  let created ← d.vars.mapM addVariableRecord
  d.constraints.forM (addConstraintRecord ((d.vars.map (·.name)).zip created))
  setObjective (some (objective.addAll (List.zipWith Term.mk (d.vars.map (·.objective)) created)))
  setDirection d.direction
  setTitle setName d.name
  setTitle setObjectiveName d.objectiveName
  return created

end LinearProgram.Problem
