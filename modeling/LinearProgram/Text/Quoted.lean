import LinearProgram.Text.Hex
import LinearProgram.Text.Unprintable
import LinearProgram.Text.Extender

namespace LinearProgram.Text

def standsForItself (c : Char) : Bool :=
  if c.toNat < 127 then 32 ≤ c.toNat else !isExtender c && !isUnprintable c

def quoteChar : Char → List Char
  | '\x00' => ['\\', '0']
  | '\t' => ['\\', 't']
  | '\n' => ['\\', 'n']
  | '\r' => ['\\', 'r']
  | '"' => ['\\', '"']
  | '\\' => ['\\', '\\']
  | c => if standsForItself c then [c] else '\\' :: 'u' :: '\x7b' :: hex 1 c.toNat ++ ['\x7d']

def quoted (s : String) : String :=
  String.ofList ('"' :: s.toList.flatMap quoteChar ++ ['"'])

end LinearProgram.Text
