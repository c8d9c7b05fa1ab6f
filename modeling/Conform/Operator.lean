import Conform.Text.Lowercase
import Conform.Value.Order

/-!
# Operators

An operator compares the value of a member with an operand. `Operator.apply` answers nothing when
the two are not comparable. An operator also has the phrases that describe what it asks for and
the opposite of that. There is a catalogue of operators (`Operator.all`), and users may bring their own.
-/

namespace Conform

/-- Comparisons of values. -/
inductive Comparison where
  | eq
  | ne
  | lt
  | le
  | gt
  | ge
  /-- Member of an interval or a list. -/
  | within
  | outside
  /-- A boolean that is as expected. -/
  | flag
deriving DecidableEq, Repr

/-- Comparisons of texts. -/
inductive TextRelation where
  | eq
  | ne
  | lt
  | le
  | gt
  | ge
  | contains
  | startsWith
  | endsWith
deriving DecidableEq, Repr

/-- What an operator of the user's own does. -/
structure OwnOperator where
  name : String
  apply : Value → Value → Option Bool
  phrase : String
  /-- The phrase for the opposite. -/
  negated : String
  /-- The phrase against a literal operand, or for the opposite, and whether the operand is written
  behind it. -/
  describe : Value → Bool → String × Bool := fun _ negate => (if negate then negated else phrase, true)

inductive Operator where
  | compare (c : Comparison)
  | text (r : TextRelation) (ignoreCase : Bool)
  | own (o : OwnOperator)

/-! ### Answers -/

def Comparison.apply (c : Comparison) (left right : Value) : Option Bool :=
  match c with
  | eq => (left.compare? right).map (· == .eq)
  | ne => (left.compare? right).map (· != .eq)
  | lt => (left.compare? right).map (· == .lt)
  | le => (left.compare? right).map (· != .gt)
  | gt => (left.compare? right).map (· == .gt)
  | ge => (left.compare? right).map (· != .lt)
  | within => right.contains? left
  | outside => (right.contains? left).map (!·)
  | flag => do pure ((← left.bool?) == (← right.bool?))

/-- Whether `part` occurs in `whole` without a gap. -/
def occursIn (part : List Char) : List Char → Bool
  | [] => part.isEmpty
  | c :: cs => part.isPrefixOf (c :: cs) || occursIn part cs

def TextRelation.holds (r : TextRelation) (left right : String) : Bool :=
  match r with
  | eq => left == right
  | ne => left != right
  | lt => decide (left < right)
  | le => !decide (right < left)
  | gt => decide (right < left)
  | ge => !decide (left < right)
  | contains => occursIn right.toList left.toList
  | startsWith => right.toList.isPrefixOf left.toList
  | endsWith => right.toList.isSuffixOf left.toList

namespace Operator

/-- The text that is compared: the text itself, or its lower case. -/
def fold (ignoreCase : Bool) (s : String) : String :=
  if ignoreCase then Text.lowercase s else s

def apply (o : Operator) (left right : Value) : Option Bool :=
  match o with
  | compare c => c.apply left right
  | text r ignoreCase => do
    let l ← left.plain?
    let r' ← right.plain?
    pure (r.holds (fold ignoreCase l) (fold ignoreCase r'))
  | own o => o.apply left right

end Operator

/-! ### Names and phrases -/

namespace Comparison

def name : Comparison → String
  | eq => "eq"
  | ne => "ne"
  | lt => "lt"
  | le => "lte"
  | gt => "gt"
  | ge => "gte"
  | within => "in"
  | outside => "nin"
  | flag => "flag"

/-- The comparison that holds exactly when `c` does not, among comparable values; a flag has
none. -/
def opposite : Comparison → Comparison
  | eq => ne
  | ne => eq
  | lt => ge
  | le => gt
  | gt => le
  | ge => lt
  | within => outside
  | outside => within
  | flag => flag

def phrase : Comparison → String
  | eq => "must be equal to"
  | ne => "must be not equal to"
  | lt => "must be less than"
  | le => "must be less than or equal to"
  | gt => "must be greater than"
  | ge => "must be greater than or equal to"
  | within => "must be in"
  | outside => "must be not in"
  | flag => "must be true"

/-- The phrase for the opposite. -/
def negated : Comparison → String
  | flag => "must be false"
  | c => c.opposite.phrase

/-- Every comparison. -/
def all : List Comparison :=
  [eq, ne, lt, le, gt, ge, within, outside, flag]

end Comparison

namespace TextRelation

def name : TextRelation → String
  | eq => "eq"
  | ne => "ne"
  | lt => "lt"
  | le => "lte"
  | gt => "gt"
  | ge => "gte"
  | contains => "contains"
  | startsWith => "starts_with"
  | endsWith => "ends_with"

/-- What is asked for, between `must` and the operand. -/
def wording : TextRelation → String
  | eq => "equal to"
  | ne => "not equal to"
  | lt => "less than"
  | le => "less than or equal to"
  | gt => "greater than"
  | ge => "greater than or equal to"
  | contains => "contain"
  | startsWith => "start with"
  | endsWith => "end with"

/-- The relation that holds exactly when `r` does not, if there is one. -/
def opposite? : TextRelation → Option TextRelation
  | eq => some ne
  | ne => some eq
  | lt => some ge
  | le => some gt
  | gt => some le
  | ge => some lt
  | contains | startsWith | endsWith => none

/-- Relations of order and equality are something a text must be. -/
def isOrder (r : TextRelation) : Bool :=
  r.opposite?.isSome

def phrase (r : TextRelation) (ignoreCase : Bool) : String :=
  "must " ++ (if r.isOrder then "be " else "") ++
    (if r.isOrder && !ignoreCase then "lexicographically " else "") ++ r.wording ++
    (if ignoreCase then ", ignoring case," else "")

/-- The phrase for the opposite. -/
def negated (r : TextRelation) (ignoreCase : Bool) : String :=
  match r.opposite? with
  | some o => o.phrase ignoreCase
  | none => "must not " ++ r.wording ++ if ignoreCase then ", ignoring case," else ""

/-- Every relation. -/
def all : List TextRelation :=
  [eq, ne, lt, le, gt, ge, contains, startsWith, endsWith]

end TextRelation

namespace Operator

def name : Operator → String
  | compare c => c.name
  | text r false => "lex_" ++ r.name
  | text r true => "ilex_" ++ r.name
  | own o => o.name

/-- Flags are known by their name. -/
def isFlag (o : Operator) : Bool :=
  o.name == "flag"

/-- Every operator of the catalogue. -/
def all : List Operator :=
  Comparison.all.map compare ++ TextRelation.all.map (text · false) ++
    TextRelation.all.map (text · true)

def ofName? (s : String) : Option Operator :=
  all.find? (·.name == s)

/-- The phrase that comes before the operand. -/
def phrase : Operator → String
  | compare c => c.phrase
  | text r ignoreCase => r.phrase ignoreCase
  | own o => o.phrase

/-- The phrase for the opposite condition. -/
def negated : Operator → String
  | compare c => c.negated
  | text r ignoreCase => r.negated ignoreCase
  | own o => o.negated

/-- Whether the operand is written behind the phrase; a flag's phrase already says it. -/
def showsOperand (o : Operator) (operand : Value := .null) (negate : Bool := false) : Bool :=
  match o with
  | compare c => c != .flag
  | text .. => true
  | own o => (o.describe operand negate).2

/-- The phrase against a literal operand, or for the opposite; a flag expected to be false asks
for the opposite of one expected to be true. -/
def describe (o : Operator) (operand : Value) (negate : Bool) : String :=
  match o with
  | compare c =>
    let opposite :=
      match c, operand with
      | .flag, .bool expected => expected == negate
      | _, _ => negate
    if opposite then c.negated else c.phrase
  | text r ignoreCase => if negate then r.negated ignoreCase else r.phrase ignoreCase
  | own o => (o.describe operand negate).1

end Operator

end Conform
