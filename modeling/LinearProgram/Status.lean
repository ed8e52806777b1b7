import LinearProgram.Json.Form

namespace LinearProgram

inductive Status where
  | optimal
  | feasible
  | infeasible
  | unbounded
  | unknown
  deriving DecidableEq

namespace Status

instance : Inhabited Status := ⟨.unknown⟩

def all : List Status := [.optimal, .feasible, .infeasible, .unbounded, .unknown]

def name : Status → String
  | .optimal => "Optimal"
  | .feasible => "Feasible"
  | .infeasible => "Infeasible"
  | .unbounded => "Unbounded"
  | .unknown => "Unknown"

def text : Status → String
  | .optimal => "OPTIMAL"
  | .feasible => "FEASIBLE"
  | .infeasible => "INFEASIBLE"
  | .unbounded => "UNBOUNDED"
  | .unknown => "UNKNOWN"

def hasSolution : Status → Bool
  | .optimal | .feasible => true
  | _ => false

instance : JsonForm Status := .ofNames all name

end Status

end LinearProgram
