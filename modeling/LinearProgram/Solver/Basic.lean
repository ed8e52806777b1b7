import LinearProgram.Problem.Values
import LinearProgram.Solver.Options

namespace LinearProgram

abbrev Solve (α : Type) := EStateM (Failure SolverError) Problem α

structure Solver where
  create : ProblemId → Problem
  options : OptionSet
  solve : OptionSet → Solve Bool

namespace Solve

def ofEdit {α : Type} (edit : Problem.Edit α) : Solve α := fun p =>
  match edit p with
  | .ok a p => .ok a p
  | .error (.refused error) p => .error (.refused (.model error)) p
  | .error (.broken defect) p => .error (.broken defect) p

end Solve

namespace Solver

/-- The solver, one solve at a time. A solve is one step of the program here, and a solve that was
aborted holds nothing back from the next. -/
def serialized (s : Solver) : Solver := s

end Solver

end LinearProgram
