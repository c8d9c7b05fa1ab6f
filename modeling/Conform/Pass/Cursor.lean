import Conform.Leaf
import Conform.Lookup
import Conform.Settings

/-!
# Where a pass stands

A cursor is a view of the validated object from an element that a pass has reached. Members keep
their full paths; the keys that lead to the element are not walked again.
-/

namespace Conform

/-- An object from which paths are followed. A candidate that is checked before it is written
counts as itself wherever it is met; any other object, even an equal one, does not. -/
structure Origin where
  object : Object
  /-- The candidate that the object is. -/
  candidate? : Option Nat := none
deriving Inhabited

/-- What properties mean and how absence is treated. -/
structure Terms where
  settings : Settings := {}
  registry : Registry := .standard
deriving Inhabited

structure Cursor where
  /-- The validated object. -/
  root : Object
  /-- The object that has been reached. -/
  origin : Origin
  /-- How many keys of a member's path lead to the origin. -/
  consumed : Nat := 0
  /-- The object from which operands are followed, if it is not the root, and its depth. -/
  operandOrigin? : Option (Origin × Nat) := none
deriving Inhabited

namespace Cursor

def start (o : Object) : Cursor :=
  { root := o, origin := { object := o } }

def moveTo (c : Cursor) (origin : Origin) (consumed : Nat) : Cursor :=
  { c with origin, consumed }

def moveOperands (c : Cursor) (origin : Origin) (consumed : Nat) : Cursor :=
  { c with operandOrigin? := some (origin, consumed) }

/-- The object from which operands are followed and its depth. -/
def operandBase (c : Cursor) : Origin × Nat :=
  c.operandOrigin?.getD ({ object := c.root }, 0)

/-- The view from where operands are followed. -/
def fromOperands (c : Cursor) : Cursor :=
  c.moveTo c.operandBase.1 c.operandBase.2

/-- The part of a path that is still to be walked behind `consumed` keys. -/
def remaining? (consumed : Nat) (path : Path) : Option Path :=
  if consumed ≤ path.length then some (path.drop consumed) else none

variable (c : Cursor) (r : Registry)

def find? (m : Member) : Option Found :=
  (remaining? c.consumed m.path).bind fun path => r.find? c.origin.object path

def findOperand? (m : Member) : Option Found :=
  (remaining? c.operandBase.2 m.path).bind fun path => r.find? c.operandBase.1.object path

/-- The object of a member as an origin: it is a candidate only if no step leads away from one. -/
def originOf? (m : Member) : Option Origin :=
  (c.find? r m).map fun f =>
    { object := f.object
      candidate? := if m.path.length = c.consumed then c.origin.candidate? else none }

/-- Whether a member, or a property of it, exists. -/
def has (m : Member) (property? : Option Property) : Bool :=
  match remaining? c.consumed m.path with
  | none => false
  | some path =>
    match property? with
    | none => r.reaches c.origin.object path
    | some p => ((r.find? c.origin.object path).bind fun f => r.read? f.object p).isSome

def hasOperand (m : Member) : Bool :=
  (c.findOperand? r m).isSome

/-- The scalar of what has been found, or a property of it. -/
def read? (f : Found) : Option Property → Option Value
  | some p => r.read? f.object p
  | none => f.object.scalar?

/-! ### Answering leaves -/

/-- The value of a comparison's member. -/
def left? (k : Check) : Option Value :=
  (c.find? r k.member).bind fun f => read? r f k.property?

/-- The value that a comparison compares with. -/
def right? (k : Check) : Option Value :=
  match k.operand with
  | .value v => some v
  | .member m =>
    let (owner, p?) := m.splitProperty
    (c.findOperand? r owner).bind fun f => read? r f p?
  | .sample o => (r.find? o k.member.path).bind fun f => read? r f k.property?

/-- A comparison does not apply if a side is missing or the sides are not comparable. -/
def compare (k : Check) : Status :=
  match c.left? r k, c.right? r k with
  | some a, some b => .ofOption (k.operator.apply a b)
  | _, _ => .ignore

/-- The answer to a leaf where nothing stands in between. -/
def answer : Leaf → Status
  | .check _ k => c.compare r k
  | .presence m p? expected => .ofBool (c.has r m p? == expected)

end Cursor

end Conform
