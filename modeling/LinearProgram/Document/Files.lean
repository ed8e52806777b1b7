import LinearProgram.Document.Exchange

namespace LinearProgram

structure Files where
  contents : Registry String ByteArray

namespace Files

def empty : Files := ⟨.empty⟩

instance : Inhabited Files := ⟨empty⟩

def write (files : Files) (name : String) (bytes : ByteArray) : Files :=
  ⟨files.contents.insert name bytes⟩

def read? (files : Files) (name : String) : Option String :=
  (files.contents.find? name).bind String.fromUTF8?

def read (files : Files) (name : String) : Outcome String :=
  match files.read? name with
  | some text => pure text
  | none => Outcome.refuse .unreadable

end Files

namespace Problem

def save (p : Problem) (files : Files) (name : String) : Outcome Files := do
  return files.write name (← p.toDocument).toJson.toUTF8

def load (files : Files) (name : String) : Edit (List Variable) := do
  let text ← ask fun _ => files.read name
  let d ← ask fun _ => Document.ofJson text
  appendDocument d

end Problem

end LinearProgram
