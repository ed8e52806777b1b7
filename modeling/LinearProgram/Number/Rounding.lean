import LinearProgram.Number.Binary

namespace LinearProgram

def squaring : (fuel : Nat) → (product base : Float) → (n : Nat) → Float
  | 0, product, _, _ => product
  | fuel + 1, product, base, n =>
    let product := if n % 2 = 1 then product * base else product
    if n / 2 = 0 then product else squaring fuel product (base * base) (n / 2)

def decimalFactor (n : Nat) : Float := squaring (n.log2 + 1) 1 10 n

def divideHalfEven (n d : Nat) : Nat :=
  match compare (2 * (n % d)) d with
  | .lt => n / d
  | .gt => n / d + 1
  | .eq => if n / d % 2 = 0 then n / d else n / d + 1

/-- The nearest whole number, with the sign of `x` also when it is zero. Only for doubles below
`2 ^ 53`; from there on all are whole. -/
def roundHalfEven (x : Float) : Float :=
  match Binary.ofFloat x with
  | .finite negative m q =>
    if 0 ≤ q then x
    else
      let size := (UInt64.ofNat (divideHalfEven m (Nat.pow 2 (-q).toNat))).toFloat
      if negative then -size else size
  | _ => x

def wholeLimit : Float := 9007199254740992

def digitsLimit : Nat := 2147483647

/-- Rounds to `digits` decimal places. Where `x` has no such places, it is left as it is. -/
def roundToDigits (x : Float) (digits : UInt32) : Float :=
  let factor := decimalFactor (min digits.toNat digitsLimit)
  let scaled := x * factor
  if scaled.isFinite && scaled.abs < wholeLimit then roundHalfEven scaled / factor else x

end LinearProgram
