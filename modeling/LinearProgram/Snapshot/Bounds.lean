import LinearProgram.Problem.Building

namespace LinearProgram

structure BoundSnapshot (kind : EntityKind) where
  bounds : Registry (Handle kind) Bound
  deriving BEq

namespace BoundSnapshot

variable {kind : EntityKind}

def captured (p : Problem) (h : Handle kind) : Outcome (Handle kind × Bound) := do
  return (h, ← p.bound h)

def capture (p : Problem) (handles : List (Handle kind)) : Outcome (BoundSnapshot kind) := do
  return ⟨.ofList (← handles.mapM (captured p))⟩

def bound? (s : BoundSnapshot kind) (h : Handle kind) : Option Bound := s.bounds.find? h

def lower? (s : BoundSnapshot kind) (h : Handle kind) : Option Float := (s.bound? h).bind (·.lower)

def upper? (s : BoundSnapshot kind) (h : Handle kind) : Option Float := (s.bound? h).bind (·.upper)

def size (s : BoundSnapshot kind) : Nat := s.bounds.size

def isEmpty (s : BoundSnapshot kind) : Bool := s.bounds.isEmpty

/-- Puts the bounds back, in the order of capture, up to the first entity that does not take its
bound. -/
def restore (s : BoundSnapshot kind) : Problem.Edit Unit :=
  s.bounds.entries.forM fun e => Problem.setBound e.1 e.2

end BoundSnapshot

end LinearProgram
