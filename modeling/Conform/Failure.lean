import Conform.Fields

/-!
# Failures

A failure tells a caller why an object or a write was refused: a code for programs, a message for
people, and the members that are to blame.
-/

namespace Conform

structure Failure where
  code : String
  message : String
  /-- The member that is named first. -/
  field? : Option String := none
  params : List (String × String) := []
  /-- The paths of failing members, in the order they were noted. -/
  members : List String := []
deriving DecidableEq, Repr, Inhabited

namespace Failure

/-- An object fails its rules. -/
def ofReport (text : String) (members : List String) : Failure :=
  { code := "rule_failed", message := text, field? := members.head?, members }

/-- A document has no place for a member. -/
def unwritable (member : String) : Failure :=
  { code := "unwritable_member", message := "member has no location in the document"
    field? := some member }

def withField (f : Failure) (field : String) : Failure :=
  { f with field? := some field }

def withParam (f : Failure) (key value : String) : Failure :=
  { f with params := f.params ++ [(key, value)] }

def param? (f : Failure) (key : String) : Option String :=
  Fields.get? key f.params

def blames (f : Failure) (member : String) : Bool :=
  f.members.contains member

/-- One line: the field in brackets, code and message, then the parameters. -/
def text (f : Failure) : String :=
  let field := match f.field? with
    | some m => "[" ++ m ++ "] "
    | none => ""
  let params :=
    if f.params.isEmpty then ""
    else " (params: [" ++ ", ".intercalate (f.params.map fun p => p.1 ++ "=" ++ p.2) ++ "])"
  field ++ f.code ++ ": " ++ f.message ++ params

end Failure

end Conform
