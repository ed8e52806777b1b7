import LinearProgram.Number.Decimal

namespace LinearProgram

abbrev Digit := Fin 10

namespace Digit

def char (d : Digit) : Char := Char.ofNat (48 + d.val)

def ofChar? (c : Char) : Option Digit :=
  if h : 48 ≤ c.toNat ∧ c.toNat < 58 then some ⟨c.toNat - 48, by omega⟩ else none

def collect : (fuel : Nat) → (n : Nat) → (rest : List Digit) → List Digit
  | 0, n, rest => Fin.ofNat 10 n :: rest
  | fuel + 1, n, rest =>
    if n < 10 then Fin.ofNat 10 n :: rest
    else collect fuel (n / 10) (Fin.ofNat 10 n :: rest)

def ofNat (n : Nat) : List Digit := collect n.log2 n []

def toNat (ds : List Digit) : Nat := ds.foldl (fun n d => 10 * n + d.val) 0

end Digit

inductive ExponentSign where
  | unsigned
  | plus
  | minus
  deriving DecidableEq

structure Exponent where
  sign : ExponentSign
  digits : List Digit
  deriving DecidableEq

structure Numeral where
  negative : Bool
  whole : List Digit
  fraction : List Digit
  exponent : Option Exponent
  deriving DecidableEq

namespace Numeral

def zero : Numeral := ⟨false, [0], [], none⟩

def signText : ExponentSign → List Char
  | .unsigned => []
  | .plus => ['+']
  | .minus => ['-']

def text (n : Numeral) : List Char :=
  (if n.negative then ['-'] else []) ++ n.whole.map Digit.char ++
    (match n.fraction with
      | [] => []
      | ds => '.' :: ds.map Digit.char) ++
    (match n.exponent with
      | none => []
      | some e => 'e' :: signText e.sign ++ e.digits.map Digit.char)

def positional (negative pointed : Bool) (digits : List Digit) (exponent : Int) : Numeral :=
  let leading := exponent + digits.length - 1
  if 0 ≤ exponent then
    ⟨negative, digits ++ List.replicate exponent.toNat 0, if pointed then [0] else [], none⟩
  else if 0 ≤ leading then
    ⟨negative, digits.take (leading.toNat + 1), digits.drop (leading.toNat + 1), none⟩
  else
    ⟨negative, [0], List.replicate (-leading - 1).toNat 0 ++ digits, none⟩

def scientific (negative : Bool) (digits : List Digit) (exponent : Int) : Numeral :=
  let leading := exponent + digits.length - 1
  let sign := if leading < 0 then .minus else .plus
  ⟨negative, digits.take 1, digits.drop 1, some ⟨sign, Digit.ofNat leading.natAbs⟩⟩

end Numeral

structure Layout where
  tie : Tie
  pointed : Bool
  isPositional : Int → Bool

namespace Layout

def plain : Layout := ⟨.up, false, fun _ => true⟩

/-- A half goes to the even digit, whole numbers end in `.0`, and numbers below `1e-5` or from
`1e16` on have an exponent. -/
def json : Layout := ⟨.toEven, true, fun leading => decide (-5 ≤ leading ∧ leading < 16)⟩

def numeral? (layout : Layout) (x : Float) : Option Numeral :=
  match Binary.ofFloat x with
  | .finite negative m q =>
    let decimal := Decimal.shortest layout.tie m q
    let digits := Digit.ofNat decimal.digits
    if layout.isPositional (decimal.exponent + digits.length - 1) then
      some (.positional negative layout.pointed digits decimal.exponent)
    else
      some (.scientific negative digits decimal.exponent)
  | _ => none

end Layout

def numberText (x : Float) : String :=
  match Layout.plain.numeral? x with
  | some n => String.ofList n.text
  | none => if x.isNaN then "NaN" else if x < 0 then "-inf" else "inf"

end LinearProgram
