import Conform.Pass.Cursor
import Conform.Report
import Conform.Rule.Mentions

/-!
# Layers

What stands between a rule and the object. A layer may answer a call itself, follow it from another
object, ask something else first or instead, or only watch. A call is about a leaf, or about a branch,
a rule around other rules. These rules are handed on as they are: a layer that put others in their place
would be called about those again, and need not come to an end.
-/

namespace Conform

/-- A rule around other rules. -/
inductive Branch where
  | group (c : Connective) (scope : Member) (rules : List Rule)
  /-- Demands on all or any of the elements of `container`. -/
  | elements (q : Quantifier) (container : Member)
  | explained (scope : Member) (message : String)

namespace Branch

def member : Branch → Member
  | group _ scope _ => scope
  | elements _ container => container
  | explained scope _ => scope

def frame : Branch → FrameKind
  | group .and _ _ => .and
  | group .or _ _ => .or
  | group .not _ _ => .not
  | elements .any _ => .any
  | elements .all _ => .all
  | explained _ message => .explained message

def kind : Branch → String
  | group c _ _ => c.name
  | elements .any _ => "any"
  | elements .all _ => "all"
  | explained _ _ => "explained"

/-- With another message, if it has one. -/
def reword (message : String) : Branch → Branch
  | group c scope rules => group c scope rules
  | elements q container => elements q container
  | explained scope _ => explained scope message

end Branch

/-- The name of a kind of leaf in a record. -/
def Leaf.kind : Leaf → String
  | .check .object _ => "operator"
  | .check .property _ => "property"
  | .check .member _ => "validate"
  | .check .other _ => "other"
  | .check .sample _ => "sample"
  | .presence .. => "exists"

/-- A call seen on its way in or out. -/
inductive Trace where
  | enter (recorder kind member : String) (isLeaf isCheck : Bool) (consumed operandDepth : Nat)
  | leave (recorder kind member : String) (s : Status)
deriving DecidableEq, Repr

/-! ### Layers of the user's own -/

/-- What a layer does about a call: it makes calls of its own, each in view of what the ones before it
have answered, and in the end it answers. -/
inductive Handling (α : Type) where
  | answer (s : Status)
  | call (a : α) (next : Status → Handling α)

/-- Makes one call and answers as that is answered. -/
def Handling.forward {α : Type} (a : α) : Handling α :=
  .call a .answer

/-- A call that a layer makes on account of a branch. -/
inductive Errand where
  /-- Hands on the branch, followed from a cursor. -/
  | follow (cur : Cursor)
  /-- The same, with another message. -/
  | reword (cur : Cursor) (message : String)
  /-- Asks a leaf of the layers behind. -/
  | ask (cur : Cursor) (l : Leaf)
  /-- Asks a leaf of all layers, from the outermost on. -/
  | restart (cur : Cursor) (l : Leaf)

/-- A layer of the user's own. By default it hands on every call. -/
structure Handler where
  name : String
  /-- About a leaf that is asked from a cursor it asks leaves of the layers behind. -/
  ask : Terms → Cursor → Leaf → Handling (Cursor × Leaf) := fun _ cur l => .forward (cur, l)
  around : Terms → Cursor → Branch → Handling Errand := fun _ cur _ => .forward (.follow cur)
  /-- Whether an element passes, where it decides that. -/
  passes? : Member → Status → Option Bool := fun _ _ => none

/-- A handler that only answers for itself. -/
structure Custom where
  name : String
  /-- The leaves that it answers itself. -/
  answer? : Leaf → Option Status := fun _ => none
  /-- Whether an element passes, where it decides that. -/
  passes? : Member → Status → Option Bool := fun _ _ => none

/-! ### Candidates -/

/-- A value to be checked as if it were stored at `path`. -/
structure Candidate where
  path : Path
  object : Object
  /-- Tells the candidates of one chain apart. -/
  number : Nat := 0
  /-- Only elements on the way to the candidate, or inside it, satisfy a demand for any. -/
  strict : Bool := false

namespace Candidate

def origin (c : Candidate) : Origin :=
  { object := c.object, candidate? := some c.number }

/-- Whether a path leads to the candidate or into it. -/
def holds (c : Candidate) (path : Path) : Bool :=
  Path.covers c.path path

/-- Whether paths are still followed from the stored object. -/
def isAhead (c : Candidate) (cur : Cursor) : Bool :=
  cur.consumed < c.path.length ||
    (cur.consumed == c.path.length && cur.origin.candidate? != some c.number)

/-- Follows members from the candidate, unless that is so already. -/
def enter (c : Candidate) (cur : Cursor) : Cursor :=
  if c.isAhead cur then cur.moveTo c.origin c.path.length else cur

/-- From where a leaf is asked, if its member or its operand has to do with the candidate. -/
def redirect? (c : Candidate) (cur : Cursor) (l : Leaf) : Option Cursor :=
  let left := c.holds l.member.path
  let right := (l.operand?.map fun m => c.holds m.path).getD false
  if left || right then
    let cur := if left then c.enter cur else cur
    some (if right then cur.moveOperands c.origin c.path.length else cur)
  else none

/-- Whether an element lies on the way to the candidate or inside it. -/
def isRelated (c : Candidate) (element : Path) : Bool :=
  c.holds element || Path.covers element c.path

end Candidate

/-! ### Layers -/

inductive Layer where
  /-- Records every call. -/
  | recorder (name : String)
  | handler (h : Handler)
  /-- Only leaves on members that the pattern covers are asked; all others succeed. -/
  | single (pattern : Path)
  /-- Leaves on the candidate are asked of it; leaves that have nothing to do with it succeed. -/
  | candidate (c : Candidate)
  /-- Looks for the members of a leaf first; `abort` tells whether a missing one is a failure. -/
  | guard (abort : Bool)
  /-- Tells the reporter of every call. -/
  | reporting

namespace Layer

/-- A layer that answers some leaves itself and hands on every other call. -/
def custom (c : Custom) : Layer :=
  handler
    { name := c.name
      ask := fun _ cur l => ((c.answer? l).map .answer).getD (.forward (cur, l))
      passes? := c.passes? }

def name : Layer → String
  | recorder n => n
  | handler h => h.name
  | single _ => "single_member"
  | candidate _ => "prevalidation"
  | guard _ => "existence"
  | reporting => "reporting"

def isHandler : Layer → Bool
  | handler _ => true
  | recorder _ | single _ | candidate _ | guard _ | reporting => false

/-- The place of a layer in the usual order. -/
inductive Role where
  /-- A layer of the caller's own. -/
  | own
  /-- Chooses which leaves are asked. -/
  | filter
  | guard
  | reporter
deriving DecidableEq, Repr

def role : Layer → Role
  | recorder _ | handler _ => .own
  | single _ | candidate _ => .filter
  | guard _ => .guard
  | reporting => .reporter

/-- The layer for a policy, if it takes one. -/
def ofExistence? : Existence → Option Layer
  | .optimistic => none
  | .safe => some (guard false)
  | .abort => some (guard true)

/-- Whether an element satisfies a demand for any, where the layer decides that. -/
def passes? (element : Member) (s : Status) : Layer → Option Bool
  | handler h => h.passes? element s
  | candidate c => if c.strict then some (s.isSuccess && c.isRelated element.path) else none
  | _ => none

/-- Whether a pattern covers a member, or the property of it that a leaf is about. -/
def covers (pattern : Path) (l : Leaf) : Bool :=
  Path.covers pattern l.member.path ||
    (l.property?.map fun p => Path.covers pattern (l.member.path ++ [.property p])).getD false

end Layer

/-! ### Passes -/

/-- What a pass leaves behind. -/
structure Record where
  reporter : Reporter
  /-- Recorded calls, latest first. -/
  traces : List Trace := []
deriving Inhabited

abbrev Pass := StateM Record

namespace Pass

def trace (t : Trace) : Pass Unit :=
  modify fun rec => { rec with traces := t :: rec.traces }

def report (f : Reporter → Reporter) : Pass Unit :=
  modify fun rec => { rec with reporter := f rec.reporter }

end Pass

/-- Makes the calls, as `perform` says, and answers. -/
def Handling.run {α : Type} (perform : α → Pass Status) : Handling α → Pass Status
  | answer s => pure s
  | call a next => do
    let s ← perform a
    (next s).run perform

theorem Handling.run_forward {α : Type} (perform : α → Pass Status) (a : α) :
    (forward a).run perform = perform a :=
  bind_pure _

end Conform
