import LinearProgram.Json.Basic
import LinearProgram.Text.Hex

/-!
The tokens of a JSON text, found in one pass over its characters.

Whatever is neither blank, punctuation nor a string is a word: a number, `true`, `false` or `null`.
A word ends where one of the others begins.
-/

namespace LinearProgram.Json

inductive Token where
  | openArray
  | closeArray
  | openObject
  | closeObject
  | comma
  | colon
  | null
  | bool (b : Bool)
  | number (n : Numeral)
  | string (s : Written)
  deriving DecidableEq

inductive Mode where
  | blank
  | word (gathered : List Char)
  | string (gathered : List Char)
  | escape (gathered : List Char)
  | unicode (missing : Nat) (gathered : List Char)
  deriving DecidableEq

structure Scan where
  mode : Mode
  found : List Token
  deriving DecidableEq

def isBlank (c : Char) : Bool := c == ' ' || c == '\t' || c == '\n' || c == '\r'

def punctuation? : Char → Option Token
  | '[' => some .openArray
  | ']' => some .closeArray
  | '\x7b' => some .openObject
  | '\x7d' => some .closeObject
  | ',' => some .comma
  | ':' => some .colon
  | _ => none

def word? : List Char → Option Token
  | ['n', 'u', 'l', 'l'] => some .null
  | ['t', 'r', 'u', 'e'] => some (.bool true)
  | ['f', 'a', 'l', 's', 'e'] => some (.bool false)
  | cs => (Numeral.ofText? cs).map .number

def isShortEscape (c : Char) : Bool :=
  ['"', '\\', '/', 'b', 'f', 'n', 'r', 't'].contains c

namespace Scan

def start : Scan := ⟨.blank, []⟩

def settle? (s : Scan) : Option (List Token) :=
  match s.mode with
  | .blank => some s.found
  | .word gathered => (word? gathered.reverse).map (· :: s.found)
  | _ => none

def outside? (s : Scan) (gathered : List Char) (c : Char) : Option Scan :=
  if isBlank c then s.settle?.map (⟨.blank, ·⟩)
  else if c = '"' then s.settle?.map (⟨.string [], ·⟩)
  else
    match punctuation? c with
    | some token => s.settle?.map fun found => ⟨.blank, token :: found⟩
    | none => some ⟨.word (c :: gathered), s.found⟩

def step? (s : Scan) (c : Char) : Option Scan :=
  match s.mode with
  | .blank => s.outside? [] c
  | .word gathered => s.outside? gathered c
  | .string gathered =>
    if c = '"' then some ⟨.blank, .string gathered.reverse :: s.found⟩
    else if c = '\\' then some ⟨.escape (c :: gathered), s.found⟩
    else if c.toNat < 32 then none
    else some ⟨.string (c :: gathered), s.found⟩
  | .escape gathered =>
    if c = 'u' then some ⟨.unicode 3 (c :: gathered), s.found⟩
    else if isShortEscape c then some ⟨.string (c :: gathered), s.found⟩
    else none
  | .unicode missing gathered =>
    if (Text.hexDigit? c).isSome then
      match missing with
      | 0 => some ⟨.string (c :: gathered), s.found⟩
      | missing + 1 => some ⟨.unicode missing (c :: gathered), s.found⟩
    else none

def run? (s : Scan) : List Char → Option Scan
  | [] => some s
  | c :: rest =>
    match s.step? c with
    | some next => next.run? rest
    | none => none

end Scan

def tokens? (cs : List Char) : Option (List Token) :=
  ((Scan.start.run? cs).bind Scan.settle?).map List.reverse

end LinearProgram.Json
