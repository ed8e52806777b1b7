import LinearProgram.Json.Form

namespace LinearProgram

inductive EntityKind where
  | var
  | constraint
  deriving DecidableEq

namespace EntityKind

def all : List EntityKind := [.var, .constraint]

def name : EntityKind → String
  | .var => "Variable"
  | .constraint => "Constraint"

def text : EntityKind → String
  | .var => "variable"
  | .constraint => "constraint"

instance : JsonForm EntityKind := .ofNames all name

end EntityKind

inductive VarType where
  | binary
  | integer
  | real
  deriving DecidableEq

namespace VarType

def all : List VarType := [.binary, .integer, .real]

def name : VarType → String
  | .binary => "Bool"
  | .integer => "Integer"
  | .real => "Real"

def text : VarType → String
  | .binary => "BOOL"
  | .integer => "INT"
  | .real => "REAL"

instance : JsonForm VarType := .ofNames all name

end VarType

structure ProblemId where
  number : UInt32
  deriving DecidableEq

structure IdSupply where
  next : UInt32
  deriving DecidableEq

namespace IdSupply

def start : IdSupply := ⟨0⟩

def take (s : IdSupply) : ProblemId × IdSupply := (⟨s.next⟩, ⟨s.next + 1⟩)

end IdSupply

structure Key where
  slot : UInt32
  generation : UInt32
  deriving DecidableEq

structure Handle (kind : EntityKind) where
  problem : ProblemId
  key : Key
  deriving DecidableEq

abbrev Variable := Handle .var

abbrev Constraint := Handle .constraint

namespace Handle

variable {kind : EntityKind}

def le (a b : Handle kind) : Bool :=
  if a.problem.number ≠ b.problem.number then decide (a.problem.number < b.problem.number)
  else if a.key.slot ≠ b.key.slot then decide (a.key.slot < b.key.slot)
  else decide (a.key.generation ≤ b.key.generation)

def sort (handles : List (Handle kind)) : List (Handle kind) := handles.mergeSort le

end Handle

end LinearProgram
