import LinearProgram.Number.Binary

/-!
The shortest decimal that reads back as a given positive double.

A double `m * 2 ^ q` owns an interval of reals: those that round to it. On each decimal grid, from
coarse to fine, the two grid points next to the double are tried; the first grid with a point in
the interval gives the fewest digits. Of two such points the nearer is taken.
-/

namespace LinearProgram

structure Decimal where
  digits : Nat
  exponent : Int
  deriving DecidableEq

inductive Tie where
  | toEven
  | up
  deriving DecidableEq

namespace Decimal

def units (q k : Int) : Nat × Nat :=
  (Nat.pow 10 k.toNat * Nat.pow 2 (2 - q).toNat, Nat.pow 2 (q - 2).toNat * Nat.pow 10 (-k).toNat)

def interval (m : Nat) (q : Int) : Nat × Nat :=
  (if m = Binary.hidden ∧ Binary.leastExponent < q then 4 * m - 1 else 4 * m - 2, 4 * m + 2)

def readsBack (m : Nat) (q k : Int) (c : Nat) : Bool :=
  let (grid, unit) := units q k
  let (low, high) := interval m q
  if m % 2 = 0 then
    decide (low * unit ≤ c * grid ∧ c * grid ≤ high * unit)
  else
    decide (low * unit < c * grid ∧ c * grid < high * unit)

def below (m : Nat) (q k : Int) : Nat :=
  let (grid, unit) := units q k
  4 * m * unit / grid

def nearer (tie : Tie) (m : Nat) (q k : Int) : Nat :=
  let (grid, unit) := units q k
  let c := below m q k
  match compare (2 * (4 * m * unit - c * grid)) grid with
  | .lt => c
  | .gt => c + 1
  | .eq => match tie with
    | .up => c + 1
    | .toEven => if c % 2 = 0 then c else c + 1

def onGrid? (tie : Tie) (m : Nat) (q k : Int) : Option Nat :=
  let c := below m q k
  match readsBack m q k c, readsBack m q k (c + 1) with
  | true, true => some (nearer tie m q k)
  | true, false => some c
  | false, true => some (c + 1)
  | false, false => none

def exact (m : Nat) (q : Int) : Decimal :=
  ⟨m * Nat.pow 2 q.toNat * Nat.pow 5 (-q).toNat, -((-q).toNat : Int)⟩

def search (tie : Tie) (m : Nat) (q : Int) : (tries : Nat) → (k : Int) → Decimal
  | 0, _ => exact m q
  | tries + 1, k =>
    match onGrid? tie m q k with
    | some digits => ⟨digits, k⟩
    | none => search tie m q tries (k - 1)

def coarsest (m : Nat) (q : Int) : Int :=
  Int.fdiv ((m.log2 + q + 1) * 30103) 100000 + 2

/-- The fewest digits that read back as `m * 2 ^ q`. Seventeen always suffice, and the search
starts at most three grids above the first of them. -/
def shortest (tie : Tie) (m : Nat) (q : Int) : Decimal :=
  if m = 0 then ⟨0, 0⟩ else search tie m q 20 (coarsest m q)

end Decimal

end LinearProgram
