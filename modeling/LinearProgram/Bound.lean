import LinearProgram.Error
import LinearProgram.Number.Numeral

namespace LinearProgram

structure Bound where
  lower : Option Float
  upper : Option Float
  deriving BEq

namespace Bound

def free : Bound := ⟨none, none⟩

def binary : Bound := ⟨some 0, some 1⟩

instance : Inhabited Bound := ⟨free⟩

def fixed (value : Float) : Bound := ⟨some value, some value⟩

def withLower (b : Bound) (lower : Option Float) : Bound := { b with lower := lower }

def withUpper (b : Bound) (upper : Option Float) : Bound := { b with upper := upper }

def isFixed : Bound → Bool
  | ⟨some l, some u⟩ => l == u
  | _ => false

def contains (b : Bound) (value tolerance : Float) : Bool :=
  b.lower.all (fun l => decide (l - tolerance ≤ value)) &&
    b.upper.all (fun u => decide (value ≤ u + tolerance))

def hasNaN (b : Bound) : Bool := b.lower.any Float.isNaN || b.upper.any Float.isNaN

def validate (b : Bound) : Outcome Unit :=
  if b.hasNaN then Outcome.refuseFault .boundNaN else pure ()

def sideText : Option Float → String
  | some x => numberText x
  | none => "null"

def rangeText (b : Bound) : String := sideText b.lower ++ ".." ++ sideText b.upper

def text (b : Bound) : String := "Bound:[" ++ b.rangeText ++ "]"

def fields : List Field :=
  [⟨"lower", some .null, none⟩, ⟨"upper", some .null, none⟩]

instance : JsonForm Bound where
  write b := .object [Field.written "lower" b.lower, Field.written "upper" b.upper]
  read? j := do
    match ← Field.values? fields j with
    | [lower, upper] =>
      let lower ← JsonForm.read? lower
      let upper ← JsonForm.read? upper
      some ⟨lower, upper⟩
    | _ => none

end Bound

end LinearProgram
