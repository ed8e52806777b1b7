import LinearProgram.Bound
import LinearProgram.Direction

namespace LinearProgram

structure VariableRecord where
  name : String
  type : VarType
  bound : Bound
  objective : Float
  deriving BEq

structure ConstraintRecord where
  name : String
  bound : Bound
  terms : List (String × Float)
  deriving BEq

structure Document where
  name : Option String
  objectiveName : Option String
  direction : Direction
  vars : List VariableRecord
  constraints : List ConstraintRecord
  deriving BEq

namespace VariableRecord

def fields : List Field :=
  [.required "name", .required "var_type", .required "bound",
    .withDefault "objective" (.number .zero)]

instance : JsonForm VariableRecord where
  write r := .object <|
    [Field.written "name" r.name, Field.written "var_type" r.type,
      Field.written "bound" r.bound] ++
    (if r.objective == 0 then [] else [Field.written "objective" r.objective])
  read? j := do
    match ← Field.values? fields j with
    | [name, type, bound, objective] =>
      let name ← JsonForm.read? name
      let type ← JsonForm.read? type
      let bound ← JsonForm.read? bound
      let objective ← JsonForm.read? objective
      some ⟨name, type, bound, objective⟩
    | _ => none

end VariableRecord

namespace ConstraintRecord

def fields : List Field :=
  [.required "name", .required "bound", .withDefault "terms" (.array [])]

instance : JsonForm ConstraintRecord where
  write r := .object
    [Field.written "name" r.name, Field.written "bound" r.bound, Field.written "terms" r.terms]
  read? j := do
    match ← Field.values? fields j with
    | [name, bound, terms] =>
      let name ← JsonForm.read? name
      let bound ← JsonForm.read? bound
      let terms ← JsonForm.read? terms
      some ⟨name, bound, terms⟩
    | _ => none

end ConstraintRecord

namespace Document

def empty : Document := ⟨none, none, .minimize, [], []⟩

instance : Inhabited Document := ⟨empty⟩

def fields : List Field :=
  [.withDefault "name" .null, .withDefault "objective_name" .null,
    .withDefault "direction" (JsonForm.write Direction.minimize),
    .withDefault "variables" (.array []), .withDefault "constraints" (.array [])]

def title (name : String) (value : Option String) : List (Written × Json) :=
  (value.map (Field.written name)).toList

instance : JsonForm Document where
  write d := .object <|
    title "name" d.name ++ title "objective_name" d.objectiveName ++
    [Field.written "direction" d.direction, Field.written "variables" d.vars,
      Field.written "constraints" d.constraints]
  read? j := do
    match ← Field.values? fields j with
    | [name, objectiveName, direction, vars, constraints] =>
      let name ← JsonForm.read? name
      let objectiveName ← JsonForm.read? objectiveName
      let direction ← JsonForm.read? direction
      let vars ← JsonForm.read? vars
      let constraints ← JsonForm.read? constraints
      some ⟨name, objectiveName, direction, vars, constraints⟩
    | _ => none

def toJson (d : Document) : String := (JsonForm.write d).pretty

def ofJson (text : String) : Outcome Document :=
  match Json.decode? Document text with
  | some d => pure d
  | none => Outcome.refuse (.malformed .text)

end Document

end LinearProgram
