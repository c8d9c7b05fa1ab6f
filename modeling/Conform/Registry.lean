import Conform.Fields
import Conform.Object
import Conform.Text.Quoted

/-!
# Registries

A registry maps the names of properties to what they compute. `Registry.standard` knows `value`,
`size`, `length` and `empty`.
-/

namespace Conform

/-- Computes a property of an object that has it. -/
abbrev Getter := Object → Option Value

namespace Getter

def ofSize? (size? : Option Nat) : Option Value :=
  size?.map Value.ofNat

def value : Getter :=
  Object.scalar?

def size : Getter := fun o =>
  ofSize? o.extent?

/-- The characters of a string, whatever else it is; otherwise the size. -/
def length : Getter := fun o =>
  match o.scalar? with
  | some (.str s) => ofSize? (some s.length)
  | _ => ofSize? o.extent?

def empty : Getter := fun o =>
  o.extent?.map fun n => .bool (n = 0)

/-- The same value for every object. -/
def const (v : Value) : Getter := fun _ =>
  some v

/-- The scalar of a child. -/
def child (k : Key) : Getter := fun o =>
  (o.child? k).bind Object.scalar?

/-- Whether an integer is even. -/
def even : Getter := fun o =>
  (o.scalar?.bind Value.int?).map fun n => .bool (n % 2 == 0)

/-- The scalars of all elements. -/
def items : Getter := fun o => do
  let vs ← (← o.elements?).mapM fun e => e.2.scalar?
  pure (.list vs)

/-- The keys of all elements, as texts. -/
def keys : Getter := fun o =>
  o.elements?.map fun es => .list (es.map fun e => .str e.1.text)

end Getter

/-- Named getters, in name order. -/
structure Registry where
  getters : List (String × Getter)

namespace Registry

def empty : Registry :=
  ⟨[]⟩

/-- Adds a getter or replaces the one of that name. -/
def register (r : Registry) (name : String) (g : Getter) : Registry :=
  ⟨Fields.set name g r.getters⟩

def standard : Registry :=
  (((empty.register "value" Getter.value).register "size" Getter.size).register
    "length" Getter.length).register "empty" Getter.empty

instance : Inhabited Registry := ⟨standard⟩

def getter? (r : Registry) (p : Property) : Option Getter :=
  Fields.get? p.name r.getters

theorem getter?_register (r : Registry) (name : String) (g : Getter) (p : Property) :
    (r.register name g).getter? p = if p.name = name then some g else r.getter? p :=
  Fields.get?_set name p.name g r.getters

def knows (r : Registry) (p : Property) : Bool :=
  (r.getter? p).isSome

/-- The property of an object, if the property is known and the object has it. -/
def read? (r : Registry) (o : Object) (p : Property) : Option Value :=
  (r.getter? p).bind fun g => g o

def names (r : Registry) : List String :=
  r.getters.map (·.1)

/-- How a registry is shown for diagnosis. -/
def describe (r : Registry) : String :=
  "PropertyRegistry \x7b properties: [" ++ ", ".intercalate (r.names.map Text.quote) ++ "] \x7d"

end Registry

/-- How a property is shown for diagnosis. -/
def Property.describe (p : Property) : String :=
  "Property(" ++ Text.quote p.name ++ ")"

end Conform
