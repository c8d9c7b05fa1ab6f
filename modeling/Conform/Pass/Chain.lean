import Conform.Pass.Layer

/-!
# Chains

A chain runs every call through its layers, outermost first, and in the end asks the object.
`Chain.ask` does so for leaves and `Chain.around` for branches, whose rules are evaluated by the
action given. A call that a layer makes on its own account starts at the outermost layer again.
-/

namespace Conform

structure Chain where
  layers : List Layer
  terms : Terms

namespace Chain

/-- No layer of the chain is a handler, so that a branch is answered as its rules answer. -/
class HandlerFree (c : Chain) : Prop where
  isHandler_eq : ∀ layer ∈ c.layers, layer.isHandler = false

theorem HandlerFree.of_own {c : Chain} (h : ∀ layer ∈ c.layers, layer.role ≠ .own) : c.HandlerFree where
  isHandler_eq layer hlayer := by
    have hrole := h layer hlayer
    cases layer with
    | handler => exact absurd rfl hrole
    | recorder | single | candidate | guard | reporting => rfl

/-- The usual order of layers: the caller's own as they are given, the filter that is given last,
the guard that the policy asks for, and the reporter, if one is given. -/
def arrange (given : List Layer) (terms : Terms) : Chain where
  layers :=
    given.filter (·.role = .own) ++
    (given.filter (·.role = .filter)).getLast?.toList ++
    (Layer.ofExistence? terms.settings.existence).toList ++
    (given.find? (·.role = .reporter)).toList
  terms := terms

variable (c : Chain)

def registry : Registry :=
  c.terms.registry

def settings : Settings :=
  c.terms.settings

/-- The property to name when a member must exist: only where the member is there and the property
is what is missing. -/
def missingProperty? (cur : Cursor) (m : Member) (p? : Option Property) : Option Property :=
  if cur.has c.registry m none then p? else none

/-- The question of existence that stands for a missing member. -/
def mustExist (cur : Cursor) (m : Member) (p? : Option Property) : Leaf :=
  .presence m (c.missingProperty? cur m p?) true

/-- The question of existence that stands for a missing operand, and from where it is asked. -/
def operandMustExist (cur : Cursor) (operand : Member) : Cursor × Leaf :=
  (cur.fromOperands,
    c.mustExist cur.fromOperands operand.splitProperty.1 operand.splitProperty.2)

/-- What a guard makes of a leaf: the leaf, or a question in its place to be asked from a cursor,
or nothing if the leaf does not apply. -/
def guarded (abort : Bool) (cur : Cursor) (l : Leaf) : Option (Cursor × Leaf) :=
  match l with
  | .presence .. => some (cur, l)
  | .check _ k =>
    if !cur.has c.registry k.member k.property? then
      if abort then some (cur, c.mustExist cur k.member k.property?) else none
    else
      match k.operand with
      | .value _ => some (cur, l)
      | .member other =>
        if cur.hasOperand c.registry other then some (cur, l)
        else if abort then some (c.operandMustExist cur other)
        else none
      | .sample o => if (c.registry.find? o k.member.path).isSome then some (cur, l) else none

/-- Asks a leaf through the given layers. -/
def askThrough : List Layer → Cursor → Leaf → Pass Status
  | [], cur, l => pure (cur.answer c.registry l)
  | .recorder name :: rest, cur, l => do
    Pass.trace (.enter name l.kind l.member.dotted true l.isCheck cur.consumed cur.operandBase.2)
    let s ← askThrough rest cur l
    Pass.trace (.leave name l.kind l.member.dotted s)
    pure s
  | .handler h :: rest, cur, l => (h.ask c.terms cur l).run fun q => askThrough rest q.1 q.2
  | .single pattern :: rest, cur, l =>
    if Layer.covers pattern l then askThrough rest cur l else pure .success
  | .candidate cand :: rest, cur, l =>
    match cand.redirect? cur l with
    | some cur => askThrough rest cur l
    | none => pure .success
  | .guard abort :: rest, cur, l =>
    match c.guarded abort cur l with
    | some (cur, l) => askThrough rest cur l
    | none => pure .ignore
  | .reporting :: rest, cur, l => do
    let s ← askThrough rest cur l
    Pass.report (·.leaf s l)
    pure s

/-- Asks a leaf through all layers. -/
def ask (cur : Cursor) (l : Leaf) : Pass Status :=
  c.askThrough c.layers cur l

/-- The question for the first of `members` that is missing. -/
def missingMember? (cur : Cursor) (members : List Member) : Option (Cursor × Leaf) :=
  ((members.map Member.splitProperty).find? fun m => !cur.has c.registry m.1 m.2).map fun m =>
    (cur, c.mustExist cur m.1 m.2)

/-- The question for the first of `operands` that is missing. -/
def missingOperand? (cur : Cursor) (operands : List Member) : Option (Cursor × Leaf) :=
  (operands.find? fun m => !cur.hasOperand c.registry m).map (c.operandMustExist cur)

/-- Asks a question, if there is one. -/
def askIfAny : Option (Cursor × Leaf) → Pass Status
  | some (cur, l) => c.ask cur l
  | none => pure .success

/-- Before a negation, under a policy by which a missing member fails: asks for the first member
that its rules read and that is missing, then for the first operand. -/
def precheck (cur : Cursor) (scope : Member) (rules : List Rule) : Pass Status := do
  let s ← c.askIfAny (c.missingMember? cur (Mentions.ofRules scope rules).members)
  if s.isSuccess then c.askIfAny (c.missingOperand? cur (Mentions.ofRules scope rules).operands)
  else pure s

/-- Runs a branch through the given layers; `body` evaluates its rules. -/
def aroundThrough : List Layer → Cursor → Branch → (Cursor → Pass Status) → Pass Status
  | [], cur, _, body => body cur
  | .recorder name :: rest, cur, b, body => do
    Pass.trace (.enter name b.kind b.member.dotted false false cur.consumed cur.operandBase.2)
    let s ← aroundThrough rest cur b body
    Pass.trace (.leave name b.kind b.member.dotted s)
    pure s
  | .handler h :: rest, cur, b, body =>
    (h.around c.terms cur b).run fun
      | .follow cur => aroundThrough rest cur b body
      | .reword cur message => aroundThrough rest cur (b.reword message) body
      | .ask cur l => c.askThrough rest cur l
      | .restart cur l => c.ask cur l
  | .single _ :: rest, cur, b, body => aroundThrough rest cur b body
  | .candidate cand :: rest, cur, b, body =>
    match b with
    | .elements _ container =>
      aroundThrough rest (if cand.holds container.path then cand.enter cur else cur) b body
    | _ => aroundThrough rest cur b body
  | .guard abort :: rest, cur, b, body =>
    match abort, b with
    | true, .group .not scope rules => do
      let s ← c.precheck cur scope rules
      if s.isFail then pure s else aroundThrough rest cur b body
    | _, _ => aroundThrough rest cur b body
  | .reporting :: rest, cur, b, body => do
    Pass.report (·.enter b.frame)
    let s ← aroundThrough rest cur b body
    Pass.report (·.leave s)
    pure s

/-- Runs a branch through all layers. -/
def around (cur : Cursor) (b : Branch) (body : Cursor → Pass Status) : Pass Status :=
  c.aroundThrough c.layers cur b body

/-- Whether an element satisfies a demand for any: the first layer that decides this does, and
otherwise success is what counts. -/
def passes (element : Member) (s : Status) : Bool :=
  (c.layers.findSome? (Layer.passes? element s)).getD s.isSuccess

end Chain

end Conform
