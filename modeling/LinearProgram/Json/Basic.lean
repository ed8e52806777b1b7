import LinearProgram.Number.Reading

namespace LinearProgram

abbrev Written := List Char

inductive Json where
  | null
  | bool (b : Bool)
  | number (n : Numeral)
  | string (s : Written)
  | array (items : List Json)
  | object (members : List (Written × Json))

end LinearProgram
