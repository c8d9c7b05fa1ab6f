import Conform.Rule

/-!
# What a rule reads

`Mentions.ofRules` lists the members that must be there for rules to be evaluated, each once and
in the order of the rules. A path is cut at its first expansion: what lies behind it is known only
when the elements are visited. Questions of existence, and the root, are not listed.
-/

namespace Conform

structure Mentions where
  /-- Members of the current object. -/
  members : List Member
  /-- Members that are operands. -/
  operands : List Member

namespace Mentions

def empty : Mentions :=
  ⟨[], []⟩

/-- Adds a member that is neither the root nor listed. -/
def note (m : Member) (ms : List Member) : List Member :=
  if m.isRoot || ms.any (Path.same ·.path m.path) then ms else ms ++ [m]

def member (ms : Mentions) (m : Member) : Mentions :=
  { ms with members := note m ms.members }

def operand (ms : Mentions) : Operand → Mentions
  | .member m =>
    let cut := (Path.firstExpansion? m.path).getD m.path.length
    { ms with operands := note { path := m.path.take cut } ms.operands }
  | _ => ms

mutual

def rule (scope : Member) (ms : Mentions) : Rule → Mentions
  | .condition _ operand => (ms.member scope).operand operand
  | .property p _ operand => (ms.member (scope.extend [.property p])).operand operand
  | .presence _ => ms
  | .bind m body =>
    match Path.firstExpansion? m.path with
    | some cut => ms.member (scope.extend (m.path.take cut))
    | none => rule (scope.extend m.path) ms body
  | .group _ rs => rules scope ms rs
  | .elements _ _ => ms.member scope
  | .explain _ body => rule scope ms body

def rules (scope : Member) (ms : Mentions) : List Rule → Mentions
  | [] => ms
  | r :: rs => rules scope (rule scope ms r) rs

end

def ofRules (scope : Member) (rs : List Rule) : Mentions :=
  rules scope empty rs

end Mentions

end Conform
