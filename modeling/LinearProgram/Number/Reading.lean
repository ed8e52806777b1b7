import LinearProgram.Number.Numeral

/-!
Reading a numeral: from characters to its parts, and from the parts to a double.

The digits are gathered into a 64-bit significand for as long as they fit, and the significand is
then multiplied or divided once by a power of ten. The result may be a neighbour of the nearest
double.
-/

namespace LinearProgram

namespace Digit

def span : List Char → List Digit × List Char
  | [] => ([], [])
  | c :: rest =>
    match ofChar? c with
    | some d => (d :: (span rest).1, (span rest).2)
    | none => ([], c :: rest)

def span? (cs : List Char) : Option (List Digit × List Char) :=
  match span cs with
  | ([], _) => none
  | found => some found

end Digit

namespace Numeral

def isWhole : List Digit → Bool
  | [] => false
  | [_] => true
  | d :: _ => d.val != 0

def fractionOf? : List Char → Option (List Digit × List Char)
  | '.' :: rest => Digit.span? rest
  | rest => some ([], rest)

def signOf : List Char → ExponentSign × List Char
  | '+' :: rest => (.plus, rest)
  | '-' :: rest => (.minus, rest)
  | rest => (.unsigned, rest)

def exponentOf? : List Char → Option (Option Exponent)
  | [] => some none
  | c :: rest =>
    if c = 'e' ∨ c = 'E' then
      let (sign, rest) := signOf rest
      match Digit.span? rest with
      | some (digits, []) => some (some ⟨sign, digits⟩)
      | _ => none
    else none

def unsignedOf? (negative : Bool) (cs : List Char) : Option Numeral :=
  let (whole, rest) := Digit.span cs
  if isWhole whole then do
    let (fraction, rest) ← fractionOf? rest
    let exponent ← exponentOf? rest
    some ⟨negative, whole, fraction, exponent⟩
  else none

def ofText? : List Char → Option Numeral
  | '-' :: rest => unsignedOf? true rest
  | rest => unsignedOf? false rest

structure Gathered where
  significand : UInt64
  exponent : Int
  deriving DecidableEq

def shifted? (significand : UInt64) (d : Digit) : Option UInt64 :=
  let next := 10 * significand.toNat + d.val
  if next < UInt64.size then some (UInt64.ofNat next) else none

def gatherWhole (significand : UInt64) : List Digit → Gathered
  | [] => ⟨significand, 0⟩
  | d :: rest =>
    match shifted? significand d with
    | some next => gatherWhole next rest
    | none => ⟨significand, (d :: rest).length⟩

def gatherFraction (g : Gathered) : List Digit → Gathered
  | [] => g
  | d :: rest =>
    match shifted? g.significand d with
    | some next => gatherFraction ⟨next, g.exponent - 1⟩ rest
    | none => g

def greatestPower : Nat := 308

def powerOfTen (e : Nat) : Float := Float.ofScientific 1 false e

def scaled? : (steps : Nat) → (f : Float) → (exponent : Int) → Option Float
  | 0, f, _ => some f
  | steps + 1, f, exponent =>
    if exponent.natAbs ≤ greatestPower then
      if exponent < 0 then some (f / powerOfTen exponent.natAbs)
      else
        let product := f * powerOfTen exponent.natAbs
        if product.isInf then none else some product
    else if f == 0 then some f
    else if exponent < 0 then
      scaled? steps (f / powerOfTen greatestPower) (exponent + greatestPower)
    else none

def exponentLimit : Nat := 2147483647

def clampExponent (e : Int) : Int :=
  if exponentLimit < e then exponentLimit
  else if e < -(exponentLimit : Int) - 1 then -(exponentLimit : Int) - 1
  else e

def magnitude? (g : Gathered) (written : Option Exponent) : Option Float :=
  let e := Digit.toNat ((written.map (·.digits)).getD [])
  let down := written.any (·.sign == .minus)
  if exponentLimit < e then
    if g.significand = 0 ∨ down then some 0 else none
  else
    let exponent := clampExponent (g.exponent + if down then -(e : Int) else e)
    scaled? (exponent.natAbs / greatestPower + 1) g.significand.toFloat exponent

def toFloat? (n : Numeral) : Option Float := do
  let size ← magnitude? (gatherFraction (gatherWhole 0 n.whole) n.fraction) n.exponent
  some (if n.negative then -size else size)

end Numeral

end LinearProgram
