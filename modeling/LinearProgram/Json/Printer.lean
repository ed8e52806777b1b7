import LinearProgram.Json.Basic

namespace LinearProgram.Json

structure Spacing where
  lead : Nat → List Char
  separator : List Char

namespace Spacing

def compact : Spacing := ⟨fun _ => [], [':']⟩

def pretty : Spacing := ⟨fun depth => '\n' :: List.replicate (2 * depth) ' ', [':', ' ']⟩

end Spacing

def quote (s : Written) : List Char := '"' :: s ++ ['"']

mutual

def render (spacing : Spacing) (depth : Nat) : Json → List Char
  | .null => ['n', 'u', 'l', 'l']
  | .bool true => ['t', 'r', 'u', 'e']
  | .bool false => ['f', 'a', 'l', 's', 'e']
  | .number n => n.text
  | .string s => quote s
  | .array [] => ['[', ']']
  | .array (item :: items) =>
    '[' :: spacing.lead (depth + 1) ++ render spacing (depth + 1) item ++
      renderItems spacing (depth + 1) items ++ spacing.lead depth ++ [']']
  | .object [] => ['\x7b', '\x7d']
  | .object ((key, value) :: members) =>
    '\x7b' :: spacing.lead (depth + 1) ++ quote key ++ spacing.separator ++
      render spacing (depth + 1) value ++ renderMembers spacing (depth + 1) members ++
      spacing.lead depth ++ ['\x7d']

def renderItems (spacing : Spacing) (depth : Nat) : List Json → List Char
  | [] => []
  | item :: items =>
    ',' :: spacing.lead depth ++ render spacing depth item ++ renderItems spacing depth items

def renderMembers (spacing : Spacing) (depth : Nat) : List (Written × Json) → List Char
  | [] => []
  | (key, value) :: members =>
    ',' :: spacing.lead depth ++ quote key ++ spacing.separator ++ render spacing depth value ++
      renderMembers spacing depth members

end

def compact (j : Json) : String := String.ofList (render .compact 0 j)

def pretty (j : Json) : String := String.ofList (render .pretty 0 j)

end LinearProgram.Json
