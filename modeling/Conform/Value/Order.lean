import Conform.Value

/-!
# The order on values

`Value.compare?` orders two values of one kind; numbers of both kinds count as one. Unrelated
kinds, NaN and intervals are not comparable. `Value.contains?` is membership in a list or an
interval, decided by the same order.
-/

namespace Conform.Value

/-- The order of two floats; a NaN is not comparable. -/
def compareFloat? (x y : Float) : Option Ordering :=
  if x < y then some .lt
  else if x > y then some .gt
  else if x == y then some .eq
  else none

/-- The order of two values through their numeric view. -/
def compareNumeric? (a b : Value) : Option Ordering :=
  match a.float?, b.float? with
  | some x, some y => compareFloat? x y
  | _, _ => none

mutual

def compare? : Value → Value → Option Ordering
  | null, null => some .eq
  | bool a, bool b => some (compare a b)
  | int a, int b => some (compare a b)
  | str a, str b => some (compare a b)
  | list as, list bs => compareItems? as bs
  | a, b => compareNumeric? a b

/-- Item by item: the first two that are not equal decide, also when they are not comparable; if
there are none the longer list is greater. -/
def compareItems? : List Value → List Value → Option Ordering
  | [], [] => some .eq
  | [], _ :: _ => some .lt
  | _ :: _, [] => some .gt
  | a :: as, b :: bs =>
    match compare? a b with
    | some .eq => compareItems? as bs
    | other => other

end

/-- Whether a value lies between two bounds to which it compares as `low` and `high`. -/
def within (low high : Ordering) (openLow openHigh : Bool) : Bool :=
  (if openLow then low == .gt else low != .lt) && (if openHigh then high == .lt else high != .gt)

/-- Whether one of `items` equals `v`; not known if `v` is comparable to none of them. -/
def memberOf? (v : Value) (items : List Value) : Option Bool :=
  let orders := items.map v.compare?
  if orders.contains (some .eq) then some true
  else if orders.any Option.isSome then some false
  else none

/-- Membership in a list or an interval. -/
def contains? (set v : Value) : Option Bool :=
  match set with
  | list items => memberOf? v items
  | interval low high openLow openHigh => do
    let l ← v.compare? low
    let h ← v.compare? high
    pure (within l h openLow openHigh)
  | _ => none

end Conform.Value
