import LinearProgram.Problem.Reading
import LinearProgram.Problem.Values

namespace LinearProgram

structure ValueSnapshot where
  values : Registry Variable Float
  tolerance : Float
  deriving BEq

namespace ValueSnapshot

def defaultTolerance : Float := 1e-9

def captured (p : Problem) (v : Variable) : Outcome (Variable × Float) := do
  return (v, ← p.value v)

def capture (p : Problem) (vars : List Variable) : Outcome ValueSnapshot := do
  if p.status.hasSolution then
    return ⟨.ofList (← vars.mapM (captured p)), defaultTolerance⟩
  else Outcome.refuse (.unavailable (.status p.status))

def captureAll (p : Problem) : Outcome ValueSnapshot := capture p p.vars

def withTolerance (s : ValueSnapshot) (tolerance : Float) : ValueSnapshot :=
  { s with tolerance := tolerance }

def value? (s : ValueSnapshot) (v : Variable) : Option Float := s.values.find? v

def size (s : ValueSnapshot) : Nat := s.values.size

def isEmpty (s : ValueSnapshot) : Bool := s.values.isEmpty

def product (s : ValueSnapshot) (t : Term) : Outcome Float :=
  match s.value? t.var with
  | some x => pure (t.coefficient * x)
  | none => Outcome.refuseFault .notCaptured

def evaluate (s : ValueSnapshot) (l : Linear) : Outcome Float :=
  l.terms.foldlM (fun sum t => do return sum + (← s.product t)) 0

def isSatisfied (s : ValueSnapshot) (p : Problem) (c : Constraint) : Outcome Bool := do
  let activity ← match ← p.linear c with
    | some l => s.evaluate l
    | none => pure 0
  return (← p.bound c).contains activity s.tolerance

end ValueSnapshot

end LinearProgram
