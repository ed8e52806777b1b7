import LinearProgram.Error

namespace LinearProgram

inductive Capability where
  | feasibilityPump
  | branchingLast
  | branchingLastAlwaysDown
  | integerFeasibilityCheck
  deriving DecidableEq

namespace Capability

def all : List Capability :=
  [.feasibilityPump, .branchingLast, .branchingLastAlwaysDown, .integerFeasibilityCheck]

def name : Capability → String
  | .feasibilityPump => "FeasibilityPump"
  | .branchingLast => "BranchingLast"
  | .branchingLastAlwaysDown => "BranchingLastAlwaysDown"
  | .integerFeasibilityCheck => "IntegerFeasibilityCheck"

def text : Capability → String
  | .feasibilityPump => "feasibility pump"
  | .branchingLast => "branching last"
  | .branchingLastAlwaysDown => "branching last always down"
  | .integerFeasibilityCheck => "integer feasibility check"

instance : JsonForm Capability := .ofNames all name

end Capability

inductive SolverError where
  | model (error : Error)
  | unsupported (capability : Capability)
  | failed (reason : String)
  deriving DecidableEq

namespace SolverError

def message : SolverError → String
  | .model error => error.message
  | .unsupported capability => "Unsupported solver capability: " ++ capability.text
  | .failed reason => "Solver failed: " ++ reason

end SolverError

structure OptionSet where
  setting : Capability → Option Bool

namespace OptionSet

def empty : OptionSet := ⟨fun _ => none⟩

instance : Inhabited OptionSet := ⟨empty⟩

def withCapability (o : OptionSet) (capability : Capability) (enabled : Bool) : OptionSet :=
  ⟨fun c => if c = capability then some enabled else o.setting c⟩

def supports (o : OptionSet) (capability : Capability) : Bool := (o.setting capability).isSome

def supported (o : OptionSet) : List Capability := Capability.all.filter o.supports

def get (o : OptionSet) (capability : Capability) : Except SolverError Bool :=
  match o.setting capability with
  | some enabled => .ok enabled
  | none => .error (.unsupported capability)

def set (o : OptionSet) (capability : Capability) (enabled : Bool) :
    Except SolverError OptionSet :=
  if o.supports capability then .ok (o.withCapability capability enabled)
  else .error (.unsupported capability)

def isEnabled (o : OptionSet) (capability : Capability) : Bool :=
  (o.setting capability).getD false

end OptionSet

end LinearProgram
