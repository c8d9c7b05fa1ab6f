import Conform.Fields

/-!
# JSON documents

A document keeps integers and other numbers apart and holds the fields of an object in the order
of their names, each name once.
-/

namespace Conform

inductive Json where
  | null
  | bool (b : Bool)
  | int (n : Int)
  | float (x : Float)
  | str (s : String)
  | list (items : List Json)
  | object (fields : List (String × Json))
deriving Inhabited

namespace Json

/-- The object with the given fields. -/
def ofFields (fields : List (String × Json)) : Json :=
  object (Fields.ofList fields)

/-! ### Height -/

mutual

/-- How many containers are nested in one another. -/
def height : Json → Nat
  | list items => heightItems items + 1
  | object fields => heightFields fields + 1
  | _ => 0

def heightItems : List Json → Nat
  | [] => 0
  | v :: vs => max (height v) (heightItems vs)

def heightFields : List (String × Json) → Nat
  | [] => 0
  | (_, v) :: fs => max (height v) (heightFields fs)

end

end Json

end Conform
