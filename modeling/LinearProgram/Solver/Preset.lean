import LinearProgram.Number.Binary
import LinearProgram.Problem.Reading
import LinearProgram.Solver.Basic

namespace LinearProgram

structure Preset where
  status : Status
  objective : Float
  columns : List Float

namespace Preset

def options : OptionSet :=
  OptionSet.empty
    |>.withCapability .branchingLast false
    |>.withCapability .integerFeasibilityCheck false

def isIntegral (s : Preset) : Bool := s.columns.all fun x => (Binary.ofFloat x).isIntegral

def reported (s : Preset) (checked : Bool) : Status :=
  if checked && !s.isIntegral then .infeasible else s.status

def isChecked (o : OptionSet) (p : Problem) : Outcome Bool :=
  if o.isEnabled .integerFeasibilityCheck then p.isMip else pure false

def solve (s : Preset) (o : OptionSet) : Solve Bool := do
  let status := s.reported (← Solve.ofEdit (Problem.ask (isChecked o)))
  let values := if status.hasSolution then some (Solution.ofValues s.objective s.columns) else none
  Solve.ofEdit (Problem.recordSolution status values)
  return status.hasSolution

def solver (s : Preset) : Solver := ⟨Problem.new, options, s.solve⟩

end Preset

namespace Solver

def failing (reason : String) : Solver :=
  ⟨Problem.new, Preset.options, fun _ => throw (.refused (.failed reason))⟩

def aborting : Solver := ⟨Problem.new, Preset.options, fun _ => throw (.broken .aborted)⟩

end Solver

end LinearProgram
