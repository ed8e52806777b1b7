/-!
The value that a double stands for, read off its bits as a sign, a natural mantissa and a power of
two. What needs exact arithmetic on doubles (shortest digits, rounding, integrality) works on this
form and never on the double itself.
-/

namespace LinearProgram

inductive Binary where
  | nan
  | infinite (negative : Bool)
  | finite (negative : Bool) (mantissa : Nat) (exponent : Int)
  deriving DecidableEq

namespace Binary

def hidden : Nat := Nat.pow 2 52

def leastExponent : Int := -1074

def ofBits (bits : Nat) : Binary :=
  let negative := decide (Nat.pow 2 63 ≤ bits)
  let biased := bits / hidden % 2048
  let stored := bits % hidden
  if biased = 2047 then
    if stored = 0 then .infinite negative else .nan
  else if biased = 0 then
    .finite negative stored leastExponent
  else
    .finite negative (stored + hidden) (biased - 1075)

def ofFloat (x : Float) : Binary := ofBits x.toBits.toNat

def isIntegral : Binary → Bool
  | .finite _ mantissa exponent => mantissa % Nat.pow 2 (-exponent).toNat == 0
  | _ => false

end Binary

end LinearProgram
