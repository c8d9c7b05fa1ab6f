import Conform.Member
import Conform.Object
import Conform.Operator

/-!
# Rules

A rule is a tree. Its leaves compare the current object, or a property of it, with an operand, or
ask whether it exists; its inner nodes combine rules, move to another member or to the elements of
the current object, or replace what a report says.
-/

namespace Conform

/-- What a comparison compares with. -/
inductive Operand where
  | value (v : Value)
  /-- Another member of the same object. -/
  | member (m : Member)
  /-- The same member of another object. -/
  | sample (o : Object)
deriving Inhabited

/-- The value to compare with, where it is known beforehand. -/
def Operand.expected : Operand → Value
  | value v => v
  | member _ | sample _ => .null

inductive Connective where
  | and
  | or
  /-- Not all of the rules. -/
  | not
deriving DecidableEq, Repr

inductive Rule where
  | condition (op : Operator) (operand : Operand)
  | property (p : Property) (op : Operator) (operand : Operand)
  /-- Whether the current member exists, or does not. -/
  | presence (expected : Bool)
  /-- `body` for another member, reached from the current one. -/
  | bind (m : Member) (body : Rule)
  | group (c : Connective) (rules : List Rule)
  /-- All of `rules` for the objects that an expansion leads to. -/
  | elements (e : Expansion) (rules : List Rule)
  /-- `body`, with a message in place of its report. -/
  | explain (message : String) (body : Rule)
deriving Inhabited

namespace Connective

def name : Connective → String
  | and => "and"
  | or => "or"
  | not => "not"

end Connective

namespace Expansion

/-- The name of the aggregation over the elements. -/
def name : Expansion → String
  | each .all => "all"
  | each .any => "any"
  | tree .. => "tree"
  | variadic .. => "variadic"

end Expansion

namespace Rule

/-! ### Building -/

/-- At least one element of the current object satisfies the rule. -/
def any (r : Rule) : Rule :=
  elements (.each .any) [r]

/-- Every element of the current object satisfies the rule. -/
def all (r : Rule) : Rule :=
  elements (.each .all) [r]

def not (r : Rule) : Rule :=
  group .not [r]

/-- Adds a rule to a connective; a rule that has the connective already just grows. -/
def combine (c : Connective) (left right : Rule) : Rule :=
  match left with
  | group c' rules => if c' = c then group c (rules ++ [right]) else group c [left, right]
  | _ => group c [left, right]

def and : Rule → Rule → Rule :=
  combine .and

def or : Rule → Rule → Rule :=
  combine .or

/-! ### Size -/

mutual

/-- The number of nodes. -/
def size : Rule → Nat
  | condition .. | property .. | presence _ => 1
  | bind _ body | explain _ body => size body + 1
  | group _ rules | elements _ rules => sizes rules + 1

def sizes : List Rule → Nat
  | [] => 0
  | r :: rs => size r + sizes rs

end

end Rule

namespace Member

/-- A rule for the member; for the root it is the rule itself. -/
def apply (m : Member) (r : Rule) : Rule :=
  if m.isRoot then r else .bind m r

/-- Compares the member with an operand; a trailing property becomes part of the leaf. -/
def check (m : Member) (op : Operator) (operand : Operand) : Rule :=
  match m.splitProperty with
  | (m, none) => m.apply (.condition op operand)
  | (m, some p) => m.apply (.property p op operand)

def exists? (m : Member) (expected : Bool) : Rule :=
  m.apply (.presence expected)

end Member

end Conform
