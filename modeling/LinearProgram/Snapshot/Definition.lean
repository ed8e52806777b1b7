import LinearProgram.Problem.Building

namespace LinearProgram

structure ConstraintSnapshot where
  name : String
  linear : Option FrozenLinear
  bound : Bound
  deriving BEq

namespace ConstraintSnapshot

def capture (p : Problem) (c : Constraint) : Outcome ConstraintSnapshot := do
  let name ← p.nameOf c
  let linear ← p.linear c
  let bound ← p.bound c
  return ⟨name, linear.map Linear.freeze, bound⟩

def release (c : Constraint) : Problem.Edit ConstraintSnapshot := do
  let s ← Problem.ask (capture · c)
  Problem.dispose c
  return s

def restore (s : ConstraintSnapshot) : Problem.Edit Constraint :=
  Problem.addConstraint s.name (s.linear.map FrozenLinear.thaw) s.bound

end ConstraintSnapshot

end LinearProgram
