import LinearProgram.Json.Escape
import LinearProgram.Json.Reader
import LinearProgram.Json.Printer

/-!
Types with a form in JSON. Reading accepts more than writing makes: a record may be an object in
any order or an array in the declared order, and a choice may be an object with one member.
-/

namespace LinearProgram

class JsonForm (α : Type) where
  write : α → Json
  read? : Json → Option α

namespace JsonForm

def stringOf (s : String) : Json := .string (Json.escape s)

instance : JsonForm String where
  write := stringOf
  read?
    | .string s => Json.unescape? s
    | _ => none

instance : JsonForm Float where
  write x := ((Layout.json.numeral? x).map Json.number).getD .null
  read?
    | .number n => n.toFloat?
    | _ => none

instance {α : Type} [JsonForm α] : JsonForm (Option α) where
  write
    | some a => write a
    | none => .null
  read?
    | .null => some none
    | j => (read? j).map some

instance {α : Type} [JsonForm α] : JsonForm (List α) where
  write as := .array (as.map write)
  read?
    | .array items => items.mapM read?
    | _ => none

instance {α β : Type} [JsonForm α] [JsonForm β] : JsonForm (α × β) where
  write pair := .array [write pair.1, write pair.2]
  read?
    | .array [first, second] => do
      let a ← read? first
      let b ← read? second
      some (a, b)
    | _ => none

@[reducible]
def ofNames {α : Type} (all : List α) (name : α → String) : JsonForm α where
  write a := stringOf (name a)
  read?
    | .string s => (Json.unescape? s).bind fun text => all.find? (name · == text)
    | .object [(key, .null)] => (Json.unescape? key).bind fun text => all.find? (name · == text)
    | _ => none

end JsonForm

structure Field where
  name : String
  absent : Option Json
  beyond : Option Json

namespace Field

def required (name : String) : Field := ⟨name, none, none⟩

def withDefault (name : String) (value : Json) : Field := ⟨name, some value, some value⟩

def among? (field : Field) (members : List (String × Json)) : Option Json :=
  match members.filter (·.1 == field.name) with
  | [] => field.absent
  | [(_, value)] => some value
  | _ => none

def inOrder? : List Field → List Json → Option (List Json)
  | [], [] => some []
  | [], _ :: _ => none
  | field :: fields, [] => do
    let value ← field.beyond
    let values ← inOrder? fields []
    some (value :: values)
  | _ :: fields, value :: items => (inOrder? fields items).map (value :: ·)

def values? (fields : List Field) : Json → Option (List Json)
  | .object members => do
    let named ← members.mapM fun (key, value) => (Json.unescape? key).map (·, value)
    fields.mapM (·.among? named)
  | .array items => inOrder? fields items
  | _ => none

def written {α : Type} [JsonForm α] (name : String) (value : α) : Written × Json :=
  (Json.escape name, JsonForm.write value)

end Field

namespace Json

def decode? (α : Type) [JsonForm α] (text : String) : Option α := (parse? text).bind JsonForm.read?

end Json

end LinearProgram
