import Conform.Rule

/-!
# Leaves

A leaf is a question about one member: how it compares with an operand, or whether it exists.
-/

namespace Conform

/-- A comparison of a member, or of a property of it. -/
structure Check where
  member : Member
  property? : Option Property
  operator : Operator
  operand : Operand

/-- What a comparison is about. -/
inductive Subject where
  /-- The validated object itself. -/
  | object
  /-- A property of the validated object. -/
  | property
  /-- A member against a value. -/
  | member
  /-- A member against another member. -/
  | other
  /-- A member against the same member of a sample. -/
  | sample
deriving DecidableEq, Repr

inductive Leaf where
  | check (subject : Subject) (c : Check)
  | presence (member : Member) (property? : Option Property) (expected : Bool)

namespace Leaf

/-- The comparison that a rule asks for. At an empty path a value is compared with the object
itself, which has no name, whatever name the scope is shown by. -/
def compare (scope : Member) (property? : Option Property) (operator : Operator)
    (operand : Operand) : Leaf :=
  let c : Check := { member := scope, property?, operator, operand }
  match operand with
  | .value _ =>
    if scope.isRoot then
      .check (if property?.isSome then .property else .object) { c with member := .root }
    else .check .member c
  | .member _ => .check .other c
  | .sample _ => .check .sample c

def member : Leaf → Member
  | check _ c => c.member
  | presence m _ _ => m

def property? : Leaf → Option Property
  | check _ c => c.property?
  | presence _ p _ => p

def isCheck : Leaf → Bool
  | check .. => true
  | presence .. => false

/-- The other member that a comparison compares with. -/
def operand? : Leaf → Option Member
  | check _ { operand := .member m, .. } => some m
  | _ => none

theorem isCheck_compare (scope : Member) (property? : Option Property) (op : Operator)
    (operand : Operand) : (compare scope property? op operand).isCheck = true := by
  simp only [compare]
  split
  next => split <;> rfl
  all_goals rfl

/-- A rule asks of the place where its scope is, whatever name that is shown by. -/
theorem path_member_compare (scope : Member) (property? : Option Property) (op : Operator)
    (operand : Operand) : (compare scope property? op operand).member.path = scope.path := by
  simp only [compare]
  split
  next =>
    split
    next h => exact (List.isEmpty_iff.1 h).symm
    next => rfl
  all_goals rfl

end Leaf

end Conform
