import LinearProgram.Entity
import LinearProgram.Status
import LinearProgram.Text.Quoted

namespace LinearProgram

inductive Fault where
  | foreignHandle (kind : EntityKind)
  | disposedTerm
  | coefficientNaN
  | boundNaN
  | nameTooLong
  | unknownDirection (text : String)
  | unequalSizes (coefficients vars : Nat)
  | valuesMissing (status : Status)
  | columnValues (expected given : Nat)
  | columnDuals (expected given : Nat)
  | rowDuals (expected given : Nat)
  | notCaptured
  deriving DecidableEq

inductive Unavailable where
  | status (status : Status)
  | duals
  deriving DecidableEq

inductive Malformed where
  | text
  | unknownVariable (constraint var : String)
  deriving DecidableEq

inductive Error where
  | disposed
  | duplicateName (kind : EntityKind) (name : String)
  | unavailable (why : Unavailable)
  | invalid (fault : Fault)
  | unreadable
  | malformed (what : Malformed)
  deriving DecidableEq

def nameLimit : Nat := 255

namespace Fault

def expected (what : String) (wanted given : Nat) : String :=
  "expected " ++ toString wanted ++ " " ++ what ++ ", got " ++ toString given

def message : Fault → String
  | .foreignHandle kind => kind.text ++ " handle belongs to another problem"
  | .disposedTerm => "linear references a disposed variable"
  | .coefficientNaN => "coefficient is NaN"
  | .boundNaN => "bound is NaN"
  | .nameTooLong => "name longer than " ++ toString nameLimit ++ " bytes"
  | .unknownDirection text => "invalid objective direction: " ++ text
  | .unequalSizes coefficients vars =>
    "coefficients size (" ++ toString coefficients ++ ") != variables size (" ++
      toString vars ++ ")"
  | .valuesMissing status => "status " ++ status.text ++ " requires solution values"
  | .columnValues wanted given => expected "column values" wanted given
  | .columnDuals wanted given => expected "column duals" wanted given
  | .rowDuals wanted given => expected "row duals" wanted given
  | .notCaptured => "variable not in value snapshot"

end Fault

namespace Unavailable

def message : Unavailable → String
  | .status s => "status is " ++ s.text
  | .duals => "dual values not available"

end Unavailable

namespace Malformed

def message : Malformed → String
  | .text => "malformed text"
  | .unknownVariable constraint var =>
    "constraint " ++ Text.quoted constraint ++ " references unknown variable " ++ Text.quoted var

end Malformed

namespace Error

def message : Error → String
  | .disposed => "Resource is disposed"
  | .duplicateName kind name => "Duplicate " ++ kind.text ++ " name: " ++ Text.quoted name
  | .unavailable why => "Solution not available: " ++ why.message
  | .invalid fault => "Invalid argument: " ++ fault.message
  | .unreadable => "IO error: unreadable file"
  | .malformed what => "Serialization error: " ++ what.message

end Error

/-- A broken rule. None of these arises from the operations of a problem. -/
inductive Defect where
  | outOfStep
  | noSlot
  | disordered
  | noColumn (index : Nat)
  | noRow (index : Nat)
  | orphanColumn (index : Nat)
  | noValue (index : Nat)
  | misnamed
  | inUse (columns rows : Nat)
  | unshowable
  | aborted
  deriving DecidableEq

namespace Defect

def message? : Defect → Option String
  | .inUse columns rows =>
    some ("backend must be empty, found " ++ toString columns ++ " columns and " ++
      toString rows ++ " rows")
  | _ => none

end Defect

inductive Failure (ε : Type) where
  | refused (error : ε)
  | broken (defect : Defect)
  deriving DecidableEq

abbrev Outcome (α : Type) := Except (Failure Error) α

namespace Outcome

variable {α : Type}

def refuse (error : Error) : Outcome α := .error (.refused error)

def refuseFault (fault : Fault) : Outcome α := refuse (.invalid fault)

def broken (defect : Defect) : Outcome α := .error (.broken defect)

def ofDefect : Except Defect α → Outcome α
  | .ok a => .ok a
  | .error defect => broken defect

end Outcome

end LinearProgram
