import Conform.Pass.Chain

/-!
# Evaluating rules

`Rule.eval` evaluates a rule for a member, seen from a cursor. Every leaf and every branch goes
through the chain.
-/

namespace Conform

/-- Evaluates something for a member seen from a cursor. -/
abbrev Eval := Cursor → Member → Pass Status

/-! ### Elements -/

/-- What the elements visited so far have answered. -/
structure Tally where
  seen : Bool := false
  succeeded : Bool := false
  failed : Bool := false
deriving DecidableEq, Repr, Inhabited

namespace Tally

/-- Where every element must succeed, a failure ends the visit. -/
def addAll (t : Tally) (s : Status) : ForInStep Tally :=
  match s with
  | .fail => .done { t with seen := true, failed := true }
  | .success => .yield { t with seen := true, succeeded := true }
  | .ignore => .yield { t with seen := true }

/-- Where any element will do, one that passes ends the visit. -/
def addAny (t : Tally) (passes : Bool) (s : Status) : ForInStep Tally :=
  if passes then .done { t with seen := true, succeeded := true }
  else .yield { t with seen := true, failed := t.failed || s.isFail }

/-- The answer once the visit has ended. -/
def conclude (t : Tally) (q : Quantifier) (allEmpty : Status) : Status :=
  match q with
  | .all =>
    if !t.seen then allEmpty
    else if t.failed then .fail
    else if t.succeeded then .success
    else .ignore
  | .any => if t.succeeded then .success else if t.failed then .fail else .ignore

end Tally

namespace Chain

variable (c : Chain)

/-- Evaluates `body` for the elements of a container that an expansion leads to. It does not apply
if there is no container or it cannot be expanded. -/
def overElements (container : Member) (e : Expansion) (body : Eval) (cur : Cursor) :
    Pass Status := do
  match cur.originOf? c.registry container with
  | none => pure .ignore
  | some origin =>
    let visit (found : Path × Object) (t : Tally) : Pass (ForInStep Tally) := do
      let scope := container.element found.1 e.display?
      let candidate? := if found.1.isEmpty then origin.candidate? else none
      let s ← body (cur.moveTo { object := found.2, candidate? } scope.path.length) scope
      match e.quantifier with
      | .all => pure (t.addAll s)
      | .any => pure (t.addAny (c.passes scope s) s)
    match c.registry.visit c.settings.maxTreeDepth? origin.object visit {} e with
    | none => pure .ignore
    | some run =>
      match ← run with
      | .done t | .yield t => pure (t.conclude e.quantifier c.settings.allEmpty)

/-- Runs a demand on elements through the chain. -/
def demand (q : Quantifier) (container : Member) (e : Expansion) (body : Eval) (cur : Cursor) :
    Pass Status :=
  c.around cur (.elements q container) (c.overElements container e body)

/-- Evaluates `body` at the end of a path from a member; each expansion on the way is a demand on
elements. -/
def descend (body : Eval) : Path → Eval
  | [], cur, scope => body cur scope
  | .expand e :: rest, cur, scope => c.demand e.quantifier scope e (descend body rest) cur
  | k :: rest, cur, scope => descend body rest cur (scope.extend [k])

/-- The rules of a connective. -/
def connect (k : Connective) (runs : List (Pass Status)) : Pass Status :=
  match k with
  | .and => Status.allM runs
  | .or => Status.anyM runs
  | .not => Status.negate <$> Status.allM runs

end Chain

namespace Rule

mutual

def eval (c : Chain) : Rule → Eval
  | .condition op operand, cur, scope =>
    c.ask cur (.compare scope none op operand)
  | .property p op operand, cur, scope =>
    c.ask cur (.compare scope (some p) op operand)
  | .presence expected, cur, scope =>
    c.ask cur (.presence scope.splitProperty.1 scope.splitProperty.2 expected)
  | .bind m body, cur, scope => c.descend (eval c body) m.path cur (scope.adoptNames m)
  | .group k rules, cur, scope =>
    c.around cur (.group k scope rules) fun cur =>
      Chain.connect k ((evals c rules).map fun run => run cur scope)
  | .elements e rules, cur, scope =>
    c.demand e.quantifier scope e
      (fun cur scope => Status.allM ((evals c rules).map fun run => run cur scope)) cur
  | .explain message body, cur, scope =>
    c.around cur (.explained scope message) fun cur => eval c body cur scope

def evals (c : Chain) : List Rule → List Eval
  | [] => []
  | r :: rs => eval c r :: evals c rs

end

end Rule

namespace Chain

/-- Demands rules of what `rest` leads to from the elements of a container. -/
def require (c : Chain) (q : Quantifier) (container : Member) (e : Expansion) (rest : Path)
    (rules : List Rule) (cur : Cursor) : Pass Status :=
  c.demand q container e
    (fun cur scope => Status.allM (rules.map fun r => c.descend (r.eval c) rest cur scope)) cur

/-- Evaluates a rule for a whole object. -/
def evaluate (c : Chain) (r : Rule) (o : Object) : Pass Status :=
  r.eval c (.start o) .root

end Chain

end Conform
