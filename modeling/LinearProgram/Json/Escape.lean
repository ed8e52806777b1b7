import LinearProgram.Json.Basic
import LinearProgram.Text.Hex

namespace LinearProgram.Json

def shortEscapes : List (Char × Char) :=
  [('"', '"'), ('\\', '\\'), ('/', '/'), ('b', '\x08'), ('f', '\x0c'), ('n', '\n'), ('r', '\r'),
    ('t', '\t')]

def escapeChar : Char → Written
  | '"' => ['\\', '"']
  | '\\' => ['\\', '\\']
  | '\x08' => ['\\', 'b']
  | '\x0c' => ['\\', 'f']
  | '\n' => ['\\', 'n']
  | '\r' => ['\\', 'r']
  | '\t' => ['\\', 't']
  | c => if c.toNat < 32 then '\\' :: 'u' :: Text.hex 4 c.toNat else [c]

def escape (s : String) : Written := s.toList.flatMap escapeChar

def units? : Written → Option (List Nat)
  | [] => some []
  | '\\' :: 'u' :: a :: b :: c :: d :: rest => do
    let unit ← Text.ofHex? [a, b, c, d]
    let later ← units? rest
    some (unit :: later)
  | '\\' :: c :: rest => do
    let meant ← shortEscapes.lookup c
    let later ← units? rest
    some (meant.toNat :: later)
  | c :: rest =>
    if c = '\\' then none
    else do
      let later ← units? rest
      some (c.toNat :: later)

def isLeading (unit : Nat) : Bool := decide (0xd800 ≤ unit ∧ unit < 0xdc00)

def isTrailing (unit : Nat) : Bool := decide (0xdc00 ≤ unit ∧ unit < 0xe000)

def joined (leading trailing : Nat) : Char :=
  Char.ofNat (0x10000 + (leading - 0xd800) * 0x400 + (trailing - 0xdc00))

def joined? : List Nat → Option (List Char)
  | [] => some []
  | unit :: rest =>
    if isTrailing unit then none
    else if isLeading unit then
      match rest with
      | [] => none
      | next :: rest => if isTrailing next then (joined? rest).map (joined unit next :: ·) else none
    else (joined? rest).map (Char.ofNat unit :: ·)

def unescape? (s : Written) : Option String :=
  ((units? s).bind joined?).map String.ofList

end LinearProgram.Json
