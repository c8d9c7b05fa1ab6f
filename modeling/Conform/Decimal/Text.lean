import Conform.Decimal.Shortest

/-!
# Floats as text

`Decimal.text` writes a float with the fewest digits that read back, always in positional notation
and without a point for whole numbers. `Written.ofText?` reads a signed decimal, with or without
an exponent, and the names of the special values. What is written is rounded once, to the
precision that is asked for: `Written.float` is not to be narrowed to get `Written.single`.
-/

namespace Conform.Decimal

/-! ### Writing -/

/-- Positional notation: no exponent, and no point unless there are digits behind it. -/
def Scaled.positional (d : Scaled) : String :=
  let digits := Nat.toDigits 10 d.digits
  match d.exponent with
  | .ofNat n => String.ofList (digits ++ List.replicate n '0')
  | .negSucc n =>
    let padded := List.replicate (n + 2 - digits.length) '0' ++ digits
    let whole := padded.length - (n + 1)
    String.ofList (padded.take whole ++ '.' :: padded.drop whole)

def isNegative (x : Float) : Bool :=
  x.toBits >>> 63 == 1

/-- The text of a float that is not a NaN, its sign left out. -/
def magnitudeText (x : Float) : String :=
  if x.isInf then "inf"
  else if x == 0 then "0"
  else (Dyadic.ofBits x.toBits).shortest.positional

def text (x : Float) : String :=
  if x.isNaN then "NaN"
  else if isNegative x then "-" ++ magnitudeText x
  else magnitudeText x

/-! ### Reading -/

/-- The number that decimal digits spell. -/
def ofDigits (ds : List Char) : Nat :=
  ds.foldl (fun n c => 10 * n + (c.toNat - '0'.toNat)) 0

/-- Splits off an optional sign; the first part tells whether it was a minus. -/
def takeSign : List Char → Bool × List Char
  | '-' :: cs => (true, cs)
  | '+' :: cs => (false, cs)
  | cs => (false, cs)

/-- The exponent part of a decimal: nothing, or a mark and a signed number. -/
def exponentPart? : List Char → Option Int
  | [] => some 0
  | c :: cs =>
    if c = 'e' || c = 'E' then
      let (negative, ds) := takeSign cs
      if ds.isEmpty || !ds.all Char.isDigit then none
      else some (if negative then -(ofDigits ds : Int) else ofDigits ds)
    else none

/-- A number without its sign, as it is written. -/
inductive Magnitude where
  | decimal (d : Scaled)
  | infinity
  | undefined
deriving DecidableEq, Repr

/-- A number as it is written, before it is rounded. -/
structure Written where
  negative : Bool
  magnitude : Magnitude
deriving DecidableEq, Repr

namespace Magnitude

/-- A decimal without a sign: digits, a point, digits, of which one at least is there. -/
def decimal? (cs : List Char) : Option Magnitude := do
  let whole := cs.takeWhile Char.isDigit
  let rest := cs.dropWhile Char.isDigit
  let (fraction, rest) := match rest with
    | '.' :: r => (r.takeWhile Char.isDigit, r.dropWhile Char.isDigit)
    | r => ([], r)
  if whole.isEmpty && fraction.isEmpty then none
  let exponent ← exponentPart? rest
  pure (.decimal ⟨ofDigits (whole ++ fraction), exponent - fraction.length⟩)

/-- Names of the special values, in any case. -/
def special? (cs : List Char) : Option Magnitude :=
  match String.ofList (cs.map Char.toLower) with
  | "inf" | "infinity" => some infinity
  | "nan" => some undefined
  | _ => none

/-- Whether a decimal lies below everything that rounds to a float other than zero. -/
def vanishes (d : Scaled) : Bool :=
  d.digits = 0 || d.exponent < -(digitCount d.digits + 400 : Int)

/-- Whether a decimal that is not zero lies above all finite floats by its exponent alone. -/
def exceeds (d : Scaled) : Bool :=
  400 < d.exponent

/-- The nearest float, of two the even one. -/
def float : Magnitude → Float
  | decimal d =>
    if vanishes d then 0
    else if exceeds d then 1 / 0
    else Float.ofScientific d.digits (d.exponent < 0) d.exponent.natAbs
  | infinity => 1 / 0
  | undefined => 0 / 0

/-- The nearest single-precision float, of two the even one. -/
def single : Magnitude → Float32
  | decimal d =>
    if vanishes d then 0
    else if exceeds d then 1 / 0
    else Float32.ofScientific d.digits (d.exponent < 0) d.exponent.natAbs
  | infinity => 1 / 0
  | undefined => 0 / 0

end Magnitude

namespace Written

def ofText? (s : String) : Option Written :=
  let (negative, cs) := takeSign s.toList
  ((Magnitude.special? cs).or (Magnitude.decimal? cs)).map fun magnitude => { negative, magnitude }

def float (w : Written) : Float :=
  if w.negative then -w.magnitude.float else w.magnitude.float

def single (w : Written) : Float32 :=
  if w.negative then -w.magnitude.single else w.magnitude.single

end Written

end Conform.Decimal
