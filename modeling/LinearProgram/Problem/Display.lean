import LinearProgram.Problem.Reading
import LinearProgram.Problem.Values

namespace LinearProgram.Problem

def nameOrMark (p : Problem) (v : Variable) : Outcome String :=
  match p.nameOf v with
  | .error (.refused _) => pure "<disposed>"
  | outcome => outcome

def termText (p : Problem) (t : Term) : Outcome String := do
  return numberText t.coefficient ++ " * " ++ (← p.nameOrMark t.var)

def linearText (p : Problem) (l : Linear) : Outcome String := do
  return "[" ++ " + ".intercalate (← l.terms.mapM p.termText) ++ "]"

/-- Takes a refusal for a defect, where everything is there to be read. -/
def shown {α : Type} : Outcome α → Outcome α
  | .error (.refused _) => Outcome.broken .unshowable
  | outcome => outcome

def label : EntityKind → String → String
  | .var, name => name
  | .constraint, name => "Constraint[" ++ name ++ "]"

def valueLine (p : Problem) {kind : EntityKind} (h : Handle kind) : Outcome String := do
  let name ← shown (p.nameOf h)
  let value ← shown (p.value h)
  return label kind name ++ "=" ++ numberText value

def boundLine (p : Problem) {kind : EntityKind} (h : Handle kind) : Outcome String := do
  let name ← shown (p.nameOf h)
  let bound ← shown (p.bound h)
  return label kind name ++ ":\x7b" ++ bound.rangeText ++ "\x7d"

def solvedLines (p : Problem) (objective : Float) : Outcome (List String) := do
  let form ← match ← p.objectiveLinear with
    | some l => do pure [← p.linearText l]
    | none => pure []
  let total := p.objectiveName.getD "obj" ++ "=" ++ numberText objective
  let vars ← p.vars.mapM p.valueLine
  let constraints ← p.constraints.mapM p.valueLine
  return form ++ total :: vars ++ constraints

def openLines (p : Problem) : Outcome (List String) := do
  let vars ← p.vars.mapM p.boundLine
  let constraints ← p.constraints.mapM p.boundLine
  return vars ++ constraints

def lines (p : Problem) : Outcome (List String) :=
  match p.objectiveValue with
  | .ok objective => p.solvedLines objective
  | .error (.refused _) => p.openLines
  | .error failure => .error failure

def text (p : Problem) : Outcome String := do
  return String.join ((← p.lines).map (· ++ "\n"))

end LinearProgram.Problem
