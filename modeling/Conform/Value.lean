import Conform.Decimal.Text

/-!
# Values

`Value` is what comparisons compare: the scalar view of an object, a computed property, or an
operand written in a rule.
-/

namespace Conform

/-- A comparable value. Integers are meant to fit 64 bits. -/
inductive Value where
  | null
  | bool (b : Bool)
  | int (n : Int)
  | float (x : Float)
  | str (s : String)
  /-- A finite set of values. -/
  | list (items : List Value)
  /-- The values between two bounds; an open end leaves its bound out. -/
  | interval (low high : Value) (openLow openHigh : Bool)
deriving Inhabited

namespace Value

mutual

/-- Equality of kind and content: an integer is never a float, and a NaN is not even itself. -/
def same : Value → Value → Bool
  | null, null => true
  | bool a, bool b => a == b
  | int a, int b => a == b
  | float x, float y => x == y
  | str a, str b => a == b
  | list as, list bs => sameItems as bs
  | interval low high openLow openHigh, interval low' high' openLow' openHigh' =>
    same low low' && same high high' && openLow == openLow' && openHigh == openHigh'
  | _, _ => false

def sameItems : List Value → List Value → Bool
  | [], [] => true
  | a :: as, b :: bs => same a b && sameItems as bs
  | _, _ => false

end

instance : BEq Value := ⟨same⟩

/-- The largest signed 64-bit integer. -/
def maxInt : Int :=
  0x7FFFFFFFFFFFFFFF

/-- A natural number as a value: beyond the signed 64-bit range it becomes a float. -/
def ofNat (n : Nat) : Value :=
  if (n : Int) ≤ maxInt then int n else float (Float.ofNat n)

def str? : Value → Option String
  | str s => some s
  | _ => none

def bool? : Value → Option Bool
  | bool b => some b
  | _ => none

def int? : Value → Option Int
  | int n => some n
  | _ => none

/-- The numeric view under which integers and floats are compared with each other. -/
def float? : Value → Option Float
  | int n => some (Float.ofInt n)
  | float x => some x
  | _ => none

/-- The number of characters of a string and of items of a list. -/
def size? : Value → Option Nat
  | str s => some s.length
  | list items => some items.length
  | _ => none

/-! ### Text -/

mutual

def text : Value → String
  | null => "null"
  | bool b => if b then "true" else "false"
  | int n => toString n
  | float x => Decimal.text x
  | str s => s
  | list items => "[" ++ textItems items ++ "]"
  | interval low high openLow openHigh =>
    (if openLow then "(" else "[") ++ text low ++ "," ++ text high ++
      (if openHigh then ")" else "]")

/-- The texts of several values with a comma and a space between them. -/
def textItems : List Value → String
  | [] => ""
  | [v] => text v
  | v :: w :: vs => text v ++ ", " ++ textItems (w :: vs)

end

/-- The text that text comparisons see; only strings, numbers and booleans have one. -/
def plain? : Value → Option String
  | str s => some s
  | int n => some (text (int n))
  | float x => some (text (float x))
  | bool b => some (text (bool b))
  | _ => none

end Value

end Conform
