import Conform.BuildError
import Conform.Json.Raw
import Conform.Json.Text
import Conform.Status
import Conform.Text.Blank

/-!
# Settings

How members that are not there are treated, what a demand on every element of an empty container
answers, and how deep trees are searched.
-/

namespace Conform

/-- What happens before a leaf is evaluated. -/
inductive Existence where
  /-- Nothing; a leaf that cannot be resolved does not apply. -/
  | optimistic
  /-- A leaf whose member is missing does not apply. -/
  | safe
  /-- A leaf whose member is missing fails, and the report says that the member must exist. -/
  | abort
deriving DecidableEq, Repr

structure Settings where
  existence : Existence := .safe
  /-- The answer of a demand on every element of an empty container. -/
  allEmpty : Status := .success
  /-- How many levels below its root a tree is searched, unless it says so itself. -/
  maxTreeDepth? : Option Nat := none
deriving DecidableEq, Repr

namespace Existence

def text : Existence → String
  | optimistic => "optimistic"
  | safe => "safe"
  | abort => "abort"

def ofText? : String → Option Existence
  | "optimistic" => some optimistic
  | "safe" => some safe
  | "abort" => some abort
  | _ => none

end Existence

namespace Settings

instance : Inhabited Settings := ⟨{}⟩

/-- A missing member fails. -/
def strict : Settings :=
  { existence := .abort }

/-- A missing member is not looked for. -/
def lenient : Settings :=
  { existence := .optimistic }

/-! ### As JSON -/

def json (s : Settings) : String :=
  "\x7b\"existence\":" ++ Json.writeString s.existence.text ++
    ",\"all_empty\":" ++ Json.writeString s.allEmpty.text ++
    ",\"max_tree_depth\":" ++ ((s.maxTreeDepth?.map toString).getD "null") ++ "\x7d"

/-- A depth, or null for none. -/
def depthOfRaw? : Json.Raw → Option (Option Nat)
  | .null => some none
  | .number t => t.word?.map some
  | _ => none

/-- Settings written as a record; fields that are not written keep their default. -/
def ofRaw? (v : Json.Raw) : Option Settings := do
  let fields ← v.record? ["existence", "all_empty", "max_tree_depth"]
  pure {
    existence := ← Json.Raw.fieldOr .safe (·.choice?.bind Existence.ofText?) "existence" fields
    allEmpty := ← Json.Raw.fieldOr .success (·.choice?.bind Status.ofText?) "all_empty" fields
    maxTreeDepth? := ← Json.Raw.fieldOr none depthOfRaw? "max_tree_depth" fields }

def ofText (s : String) : Except BuildError Settings :=
  match (Json.Raw.ofText? s).bind ofRaw? with
  | some settings => pure settings
  | none => throw .malformed

/-! ### From the environment -/

/-- The lower case of the letters A to Z. -/
def lowerAscii (s : String) : String :=
  String.ofList (s.toList.map Char.toLower)

/-- A decimal number below `2 ^ 64`, with or without a plus sign. -/
def depthOfText? (s : String) : Option Nat :=
  let ds := match s.toList with
    | '+' :: ds => ds
    | ds => ds
  let n := Decimal.ofDigits ds
  if ds.isEmpty || !ds.all Char.isDigit || Json.Numeral.wordEnd ≤ n then none else some n

/-- Reads one variable, if it is set, with blanks around its text removed. -/
def fromVariable {α : Type} (lookup : String → Option String) (name : String)
    (read? : String → Option α) : Except BuildError (Option α) :=
  match lookup name with
  | none => pure none
  | some value =>
    match read? (Text.trim value) with
    | some a => pure (some a)
    | none => throw (.invalidVariable name value)

/-- Settings taken from variables; those that are not set keep their default. -/
def fromEnvironment (lookup : String → Option String) : Except BuildError Settings := do
  let existence? ← fromVariable lookup "VERDICT_EXISTENCE" fun s =>
    Existence.ofText? (lowerAscii s)
  let allEmpty? ← fromVariable lookup "VERDICT_ALL_EMPTY" fun s => Status.ofText? (lowerAscii s)
  let maxTreeDepth? ← fromVariable lookup "VERDICT_MAX_TREE_DEPTH" depthOfText?
  pure {
    existence := existence?.getD .safe
    allEmpty := allEmpty?.getD .success
    maxTreeDepth? }

end Settings

end Conform
