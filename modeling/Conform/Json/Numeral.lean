import Conform.Decimal.Text
import Conform.Json

/-!
# Numbers in JSON texts

A numeral without fraction and exponent is an integer if it fits 64 bits, signed or unsigned. Any
other becomes a float: as many leading digits as fit 64 bits make the significand, which is then
multiplied or divided by one power of ten. That may miss the nearest float by a unit in the last
place, and numbers that leave the finite range are refused.
-/

namespace Conform.Json

/-- A number as it is written. -/
structure Numeral where
  negative : Bool
  whole : List Char
  fraction : List Char
  /-- Sign and digits behind the exponent mark. -/
  exponent? : Option (Bool × List Char)
deriving Inhabited

namespace Numeral

/-- One more than the largest unsigned 64-bit integer. -/
def wordEnd : Nat :=
  0x10000000000000000

/-- Exponents from here on are not told apart. -/
def exponentEnd : Nat :=
  0x80000000

/-- Appends digits to `n` as long as the result fits 64 bits; also gives the digits left over. -/
def absorb (n : Nat) : List Char → Nat × List Char
  | [] => (n, [])
  | c :: cs =>
    let next := 10 * n + (c.toNat - '0'.toNat)
    if next < wordEnd then absorb next cs else (n, c :: cs)

/-- The significand and the power of ten that belongs to it, the written exponent left out. -/
def significand (t : Numeral) : Nat × Int :=
  let (whole, dropped) := absorb 0 t.whole
  let (all, ignored) := absorb whole t.fraction
  (all, dropped.length - ((t.fraction.length - ignored.length : Nat) : Int))

/-- The float nearest to a power of ten up to `10 ^ 308`. -/
def tenTo (n : Nat) : Float :=
  Float.ofScientific 1 false n

/-- `x * 10 ^ e` by one multiplication, or by divisions of which only the last is not by
`10 ^ 308`; there are at most `steps` of those. -/
def scale? : Nat → Float → Int → Option Float
  | 0, x, _ => some x
  | steps + 1, x, e =>
    if e.natAbs ≤ 308 then
      if e < 0 then some (x / tenTo e.natAbs)
      else if (x * tenTo e.natAbs).isInf then none
      else some (x * tenTo e.natAbs)
    else if x == 0 then some x
    else if e < 0 then scale? steps (x / tenTo 308) (e + 308)
    else none

/-- The magnitude as a float. -/
def magnitude? (t : Numeral) : Option Float :=
  let (n, shift) := t.significand
  let (small, digits) := t.exponent?.getD (false, [])
  let written := Decimal.ofDigits digits
  if exponentEnd ≤ written then
    if n = 0 || small then some 0 else none
  else
    let e : Int := if small then shift - written else shift + written
    scale? (e.natAbs / 308 + 1) (Float.ofNat n) e

/-- Whether neither a point nor an exponent is written. -/
def isWhole (t : Numeral) : Bool :=
  t.fraction.isEmpty && t.exponent?.isNone

/-- The unsigned 64-bit integer written, if it is one. -/
def word? (t : Numeral) : Option Nat :=
  let n := Decimal.ofDigits t.whole
  if t.isWhole && !t.negative && n < wordEnd then some n else none

/-- The signed or unsigned 64-bit integer written, if it is one; a zero with a sign is not. -/
def int? (t : Numeral) : Option Int :=
  let n := Decimal.ofDigits t.whole
  if !t.isWhole then none
  else if t.negative then if 0 < n && n ≤ 0x8000000000000000 then some (-(n : Int)) else none
  else if n < wordEnd then some n else none

/-- The number as a document holds it. -/
def json? (t : Numeral) : Option Json :=
  match t.int? with
  | some n => some (.int n)
  | none => t.magnitude?.map fun x => .float (if t.negative then -x else x)

end Numeral

end Conform.Json
