import LinearProgram.Error

namespace LinearProgram

inductive Direction where
  | minimize
  | maximize
  deriving DecidableEq

namespace Direction

instance : Inhabited Direction := ⟨.minimize⟩

def all : List Direction := [.minimize, .maximize]

def name : Direction → String
  | .minimize => "Minimize"
  | .maximize => "Maximize"

def text : Direction → String
  | .minimize => "MINIMIZE"
  | .maximize => "MAXIMIZE"

def words : List (List Char × Direction) :=
  [("min".toList, .minimize), ("minimize".toList, .minimize), ("max".toList, .maximize),
    ("maximize".toList, .maximize)]

def parse (text : String) : Outcome Direction :=
  match words.lookup (text.toList.map Char.toLower) with
  | some direction => pure direction
  | none => Outcome.refuseFault (.unknownDirection text)

instance : JsonForm Direction := .ofNames all name

end Direction

end LinearProgram
