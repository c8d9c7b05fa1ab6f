/-!
# Properties

A property is a computed view of an object that rules refer to by name; what it computes is looked
up when a rule is evaluated.
-/

namespace Conform

/-- How a property reads when it is used as a flag: the condition that it is set, and that it is
not. -/
structure FlagWording where
  set : String
  unset : String
deriving DecidableEq, Repr

/-- A property. Two properties are the same if their names are, whatever their wording. -/
structure Property where
  name : String
  wording? : Option FlagWording := none
deriving Repr, Inhabited

namespace Property

instance : BEq Property where
  beq p q := p.name == q.name

/-- The scalar of the object itself. -/
def value : Property :=
  { name := "value" }

/-- The number of elements of a container, of characters of a string. -/
def size : Property :=
  { name := "size" }

/-- The number of characters of a string, of elements of a container. -/
def length : Property :=
  { name := "length" }

/-- Whether there are no elements. -/
def empty : Property :=
  { name := "empty", wording? := some ⟨"must be empty", "must not be empty"⟩ }

def isValue (p : Property) : Bool :=
  p.name == "value"

end Property

end Conform
