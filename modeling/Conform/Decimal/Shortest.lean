/-!
# The fewest digits that read back

A positive finite float is `mantissa * 2 ^ exponent`. The decimals that round to it form an
interval, and `Dyadic.shortest` is a point of that interval with as few digits as possible: of two
such points the nearer one, and of two equally near the upper one.
-/

namespace Conform.Decimal

/-- How many decimal digits write `n`. -/
def digitCount (n : Nat) : Nat :=
  (Nat.toDigits 10 n).length

/-- The decimal `digits * 10 ^ exponent`. -/
structure Scaled where
  digits : Nat
  exponent : Int
deriving DecidableEq, Repr

/-- Moves up to `n` trailing zeros of the digits into the exponent. -/
def Scaled.dropZeros : Nat → Scaled → Scaled
  | 0, d => d
  | n + 1, d =>
    if d.digits % 10 = 0 then dropZeros n ⟨d.digits / 10, d.exponent + 1⟩ else d

/-- A positive finite float. -/
structure Dyadic where
  mantissa : Nat
  exponent : Int
  /-- The next float below is half as far away as the next one above. -/
  narrowBelow : Bool

namespace Dyadic

/-- The magnitude of a finite float that is not zero, from its bits. -/
def ofBits (bits : UInt64) : Dyadic :=
  let biased := ((bits >>> 52) &&& 0x7FF).toNat
  let fraction := (bits &&& 0xFFFFFFFFFFFFF).toNat
  if biased = 0 then ⟨fraction, -1074, false⟩
  else ⟨0x10000000000000 + fraction, (biased : Int) - 1075, fraction = 0 ∧ 1 < biased⟩

variable (x : Dyadic)

/-- The value as a fraction: numerator. -/
def num : Nat :=
  x.mantissa * Nat.pow 2 x.exponent.toNat

/-- The value as a fraction: denominator. -/
def den : Nat :=
  Nat.pow 2 (-x.exponent).toNat

/-- `a * 10 ^ i` against `n * 2 ^ j`. -/
def compareScaled (a : Nat) (i : Int) (n : Nat) (j : Int) : Ordering :=
  compare (a * Nat.pow 10 i.toNat * Nat.pow 2 (-j).toNat)
    (n * Nat.pow 2 j.toNat * Nat.pow 10 (-i).toNat)

/-- Whether a decimal rounds to the float, a half going to the even mantissa. -/
def readsBack (d : Scaled) : Bool :=
  let low := compareScaled d.digits d.exponent
    (4 * x.mantissa - if x.narrowBelow then 1 else 2) (x.exponent - 2)
  let high := compareScaled d.digits d.exponent (4 * x.mantissa + 2) (x.exponent - 2)
  let closed := x.mantissa % 2 == 0
  (low == .gt || closed && low == .eq) && (high == .lt || closed && high == .eq)

/-- The least `k` for which the value is below `10 ^ k`. -/
def magnitude : Int :=
  if x.den ≤ x.num then digitCount (x.num / x.den)
  else 1 - (digitCount ((x.den - 1) / x.num) : Int)

/-- The multiple of `10 ^ grid` nearest to the value among those that read back. -/
def onGrid? (grid : Int) : Option Scaled :=
  let n := x.num * Nat.pow 10 (-grid).toNat
  let d := x.den * Nat.pow 10 grid.toNat
  let low : Scaled := ⟨n / d, grid⟩
  let high : Scaled := ⟨n / d + 1, grid⟩
  match x.readsBack low, x.readsBack high with
  | true, true => some (if 2 * (n % d) < d then low else high)
  | true, false => some low
  | false, true => some high
  | false, false => none

/-- The value itself, written out. -/
def exact : Scaled :=
  ⟨x.num * Nat.pow 5 (-x.exponent).toNat, min x.exponent 0⟩

/-- The fewest digits that read back; seventeen are always enough. -/
def shortest : Scaled :=
  let found := (List.range' 1 17).findSome? fun (n : Nat) => x.onGrid? (x.magnitude - n)
  let d := found.getD x.exact
  d.dropZeros (digitCount d.digits)

end Dyadic

end Conform.Decimal
