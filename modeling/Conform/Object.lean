import Conform.Json
import Conform.Key
import Conform.Value

/-!
# Objects

What rules look at. An object is known by four views: its scalar, its child under a literal key,
how many elements it has, and its elements with their keys. Containers have elements and a size;
their children are their elements.
-/

namespace Conform

inductive Object where
  /-- A single value. -/
  | scalar (v : Value)
  /-- A stored value; a list is a container as well. -/
  | value (v : Value)
  | json (j : Json)
  /-- Elements by position: lists, arrays and tuples. -/
  | sequence (items : List Object)
  /-- Elements by name, in name order. -/
  | table (entries : List (String × Object))
  /-- The fields that a record shows, in the order it declares them. -/
  | record (fields : List (String × Object))
  /-- An object that may be missing. -/
  | optional (o? : Option Object)
  /-- An object held through a reference. -/
  | shared (o : Object)
deriving Inhabited

namespace Json

/-- The scalar of a document; an integer beyond the signed 64-bit range is a float. -/
def scalar? : Json → Option Value
  | null => some .null
  | bool b => some (.bool b)
  | int n => some (if n ≤ Value.maxInt then .int n else .float (Float.ofInt n))
  | float x => some (.float x)
  | str s => some (.str s)
  | list _ | object _ => none

def child? (k : Key) : Json → Option Json
  | object fields =>
    match k with
    | .name s => Fields.get? s fields
    | _ => none
  | list items =>
    match k with
    | .index i => items[i]?
    | _ => none
  | _ => none

def size? : Json → Option Nat
  | list items => some items.length
  | object fields => some fields.length
  | _ => none

def elements? : Json → Option (List (Key × Json))
  | list items => some (items.mapIdx fun i v => (.index i, v))
  | object fields => some (fields.map fun f => (.name f.1, f.2))
  | _ => none

end Json

namespace Object

/-! ### The four views -/

def scalar? : Object → Option Value
  | scalar v => some v
  | value v => some v
  | json j => j.scalar?
  | sequence _ | table _ | record _ => none
  | optional none => some .null
  | optional (some o) => o.scalar?
  | shared o => o.scalar?

/-- The child under a literal key; other keys lead nowhere. -/
def child? (k : Key) : Object → Option Object
  | scalar _ => none
  | value (.list items) =>
    match k with
    | .index i => items[i]?.map value
    | _ => none
  | value _ => none
  | json j => (j.child? k).map json
  | sequence items =>
    match k with
    | .index i => items[i]?
    | _ => none
  | table entries | record entries =>
    match k with
    | .name s => Fields.get? s entries
    | _ => none
  | optional none => none
  | optional (some o) => child? k o
  | shared o => child? k o

def size? : Object → Option Nat
  | scalar _ => none
  | value (.list items) => some items.length
  | value _ => none
  | json j => j.size?
  | sequence items => some items.length
  | table entries | record entries => some entries.length
  | optional none => none
  | optional (some o) => o.size?
  | shared o => o.size?

/-- The elements of a container with their keys, in container order. -/
def elements? : Object → Option (List (Key × Object))
  | scalar _ => none
  | value (.list items) => some (items.mapIdx fun i v => (.index i, value v))
  | value _ => none
  | json j => j.elements?.map fun es => es.map fun e => (e.1, json e.2)
  | sequence items => some (items.mapIdx fun i o => (.index i, o))
  | table entries | record entries => some (entries.map fun e => (.name e.1, e.2))
  | optional none => none
  | optional (some o) => o.elements?
  | shared o => o.elements?

def isContainer (o : Object) : Bool :=
  o.elements?.isSome

/-- The number of elements of a container, of characters of a string. -/
def extent? (o : Object) : Option Nat :=
  o.size?.or (o.scalar?.bind Value.size?)

/-! ### Height -/

end Object

mutual

/-- How many lists are nested in one another. -/
def Value.height : Value → Nat
  | .list items => Value.heightItems items + 1
  | _ => 0

def Value.heightItems : List Value → Nat
  | [] => 0
  | v :: vs => max (Value.height v) (Value.heightItems vs)

end

namespace Object

mutual

/-- A bound on how many containers are nested in one another. -/
def height : Object → Nat
  | scalar _ => 0
  | value v => v.height
  | json j => j.height
  | sequence items => heightItems items + 1
  | table entries | record entries => heightEntries entries + 1
  | optional none => 0
  | optional (some o) => height o
  | shared o => height o

def heightItems : List Object → Nat
  | [] => 0
  | o :: os => max (height o) (heightItems os)

def heightEntries : List (String × Object) → Nat
  | [] => 0
  | (_, o) :: es => max (height o) (heightEntries es)

end

/-! ### Building objects -/

/-- The table with the given entries. -/
def ofEntries (entries : List (String × Object)) : Object :=
  table (Fields.ofList entries)

/-- A single-precision number is compared in double precision. -/
def ofFloat32 (x : Float32) : Object :=
  scalar (.float x.toFloat)

/-- How an object is shown for diagnosis: by its scalar, or else by its size. -/
def describe (o : Object) : String :=
  match o.scalar? with
  | some v => "Target(" ++ v.text ++ ")"
  | none =>
    match o.size? with
    | some n => "Target(size: Some(" ++ toString n ++ "))"
    | none => "Target(size: None)"

end Object

end Conform
