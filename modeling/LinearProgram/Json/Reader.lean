import LinearProgram.Json.Token

namespace LinearProgram.Json

inductive Frame where
  | item (before : List Json)
  | member (before : List (Written × Json)) (key : Written)

inductive Progress where
  | value (outer : List Frame)
  | firstItem (outer : List Frame)
  | firstKey (outer : List Frame)
  | key (outer : List Frame) (before : List (Written × Json))
  | colon (outer : List Frame) (before : List (Written × Json)) (key : Written)
  | after (done : Json) (outer : List Frame)

namespace Progress

def begin? (outer : List Frame) : Token → Option Progress
  | .null => some (.after .null outer)
  | .bool b => some (.after (.bool b) outer)
  | .number n => some (.after (.number n) outer)
  | .string s => some (.after (.string s) outer)
  | .openArray => some (.firstItem outer)
  | .openObject => some (.firstKey outer)
  | _ => none

def step? : Progress → Token → Option Progress
  | .value outer, token => begin? outer token
  | .firstItem outer, .closeArray => some (.after (.array []) outer)
  | .firstItem outer, token => begin? (.item [] :: outer) token
  | .firstKey outer, .closeObject => some (.after (.object []) outer)
  | .firstKey outer, .string k => some (.colon outer [] k)
  | .key outer before, .string k => some (.colon outer before k)
  | .colon outer before k, .colon => some (.value (.member before k :: outer))
  | .after done (.item before :: outer), .comma => some (.value (.item (done :: before) :: outer))
  | .after done (.item before :: outer), .closeArray =>
    some (.after (.array (done :: before).reverse) outer)
  | .after done (.member before k :: outer), .comma => some (.key outer ((k, done) :: before))
  | .after done (.member before k :: outer), .closeObject =>
    some (.after (.object ((k, done) :: before).reverse) outer)
  | _, _ => none

def run? (p : Progress) : List Token → Option Progress
  | [] => some p
  | token :: rest =>
    match p.step? token with
    | some next => next.run? rest
    | none => none

def finish? : Progress → Option Json
  | .after done [] => some done
  | _ => none

end Progress

def ofTokens? (tokens : List Token) : Option Json :=
  ((Progress.value []).run? tokens).bind Progress.finish?

def parse? (text : String) : Option Json :=
  (tokens? text.toList).bind ofTokens?

end LinearProgram.Json
