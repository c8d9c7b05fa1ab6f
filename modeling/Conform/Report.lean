import Conform.Language.Wording
import Conform.Status

/-!
# Reports

A reporter follows one pass. It is told of every leaf and of every rule around leaves when that
opens and closes, and collects the text of what failed and the paths of the members that did.

Inside a negation a success is what makes the outer rule fail, so there every answer but `ignore`
leaves its text. A leaf directly under a negation is worded the other way round; any other text
under one is put behind the word NOT. An explained rule replaces the text below it.
-/

namespace Conform

/-- What kind of rule is open. -/
inductive FrameKind where
  | and
  | or
  | not
  | any
  | all
  /-- A message in place of the text below. -/
  | explained (message : String)
deriving DecidableEq, Repr

/-- A rule that is open, with the texts it has collected. -/
structure Frame where
  kind : FrameKind
  parts : List String := []
  /-- A leaf has been worded the other way round. -/
  negated : Bool := false
deriving Repr

/-- What is left of a pass. -/
structure Report where
  text : String
  /-- The paths of failing members, each once, in the order they were noted. -/
  failed : List String
deriving DecidableEq, Repr

structure Reporter where
  locale : Locale
  /-- Open rules, innermost first. -/
  frames : List Frame := []
  /-- How many open rules are negations. -/
  negations : Nat := 0
  /-- How many open rules are explained. -/
  explained : Nat := 0
  failed : List String := []
  output : List String := []

namespace Reporter

instance : Inhabited Reporter := ⟨{ locale := .english }⟩

def depth (r : Reporter) : Nat :=
  r.frames.length

/-- Failures are reported, and inside a negation everything that applies. -/
def reportable (r : Reporter) (s : Status) : Bool :=
  s.isFail || (0 < r.negations && !s.isIgnore)

/-- Whether a leaf's answer speaks against its member: under an odd number of negations it is a
success that does. -/
def counts (r : Reporter) (s : Status) : Bool :=
  s.isFail || (r.negations % 2 == 1 && s.isSuccess)

/-- Adds a text to the innermost open rule, or to the output. -/
def emit (r : Reporter) (text : String) : Reporter :=
  match r.frames with
  | frame :: rest => { r with frames := { frame with parts := frame.parts ++ [text] } :: rest }
  | [] => { r with output := r.output ++ [text] }

/-- Notes the path of a member that is not the root. -/
def note (r : Reporter) (m : Member) : Reporter :=
  if m.isRoot || r.failed.contains m.dotted then r else { r with failed := r.failed ++ [m.dotted] }

/-- Whether the innermost open rule is a negation. -/
def inNegation (r : Reporter) : Bool :=
  match r.frames with
  | frame :: _ => frame.kind == .not
  | [] => false

/-- Remembers that a leaf of the innermost open rule has been worded the other way round. -/
def markNegated (r : Reporter) : Reporter :=
  match r.frames with
  | frame :: rest => { r with frames := { frame with negated := true } :: rest }
  | [] => r

/-- A leaf has been answered. -/
def leaf (r : Reporter) (s : Status) (l : Leaf) : Reporter :=
  let r := if r.counts s then r.note l.member else r
  if 0 < r.explained || !r.reportable s then r
  else
    let text := r.locale.leafText r.inNegation l
    (if r.inNegation then r.markNegated else r).emit text

/-- A rule opens. -/
def enter (r : Reporter) (kind : FrameKind) : Reporter :=
  let r := match kind with
    | .not => { r with negations := r.negations + 1 }
    | .explained _ => { r with explained := r.explained + 1 }
    | _ => r
  { r with frames := { kind } :: r.frames }

/-- Each text once, at its first place. -/
def dropRepeats (parts : List String) : List String :=
  parts.foldl (fun seen p => if seen.contains p then seen else seen ++ [p]) []

/-- The word between the texts of a rule. -/
def joint : FrameKind → String
  | .or | .any => "OR"
  | _ => "AND"

/-- The text of a rule that closes; `outermost` texts need no parentheses. -/
def render (l : Locale) (outermost : Bool) (frame : Frame) : Option String :=
  match frame.kind with
  | .explained message => some (l.phrase message .empty).text
  | kind =>
    let parts := if kind = .any then dropRepeats frame.parts else frame.parts
    let joined? := match parts with
      | [] => none
      | [part] => some part
      | parts =>
        let joined := (" " ++ l.word (joint kind) ++ " ").intercalate parts
        some (if outermost then joined else "(" ++ joined ++ ")")
    joined?.map fun joined =>
      if kind = .not && !frame.negated then l.word "NOT" ++ " " ++ joined else joined

/-- The innermost open rule closes with an answer. -/
def leave (r : Reporter) (s : Status) : Reporter :=
  match r.frames with
  | [] => r
  | frame :: rest =>
    let r := { r with frames := rest }
    let r := match frame.kind with
      | .not => { r with negations := r.negations - 1 }
      | .explained _ => { r with explained := r.explained - 1 }
      | _ => r
    if 0 < r.explained || !r.reportable s then r
    else
      match render r.locale rest.isEmpty frame with
      | some text => r.emit text
      | none => r

/-! ### Depth -/

@[simp] theorem depth_emit (r : Reporter) (text : String) : (r.emit text).depth = r.depth := by
  simp only [emit]
  split <;> simp_all [depth]

@[simp] theorem depth_note (r : Reporter) (m : Member) : (r.note m).depth = r.depth := by
  simp only [note]
  split <;> rfl

@[simp] theorem depth_markNegated (r : Reporter) : r.markNegated.depth = r.depth := by
  simp only [markNegated]
  split <;> simp_all [depth]

@[simp] theorem depth_leaf (r : Reporter) (s : Status) (l : Leaf) :
    (r.leaf s l).depth = r.depth := by
  simp only [leaf]
  repeat' split
  all_goals simp

@[simp] theorem depth_enter (r : Reporter) (kind : FrameKind) :
    (r.enter kind).depth = r.depth + 1 := by
  cases kind <;> rfl

@[simp] theorem depth_leave (r : Reporter) (s : Status) : (r.leave s).depth = r.depth - 1 := by
  simp only [leave]
  split
  next h => simp [depth, h]
  next frame rest h =>
    split <;> dsimp only <;> repeat' split
    all_goals simp [depth, emit, h]
    all_goals split <;> simp

/-- The report of a pass that has ended. -/
def finish (r : Reporter) : Report :=
  { text := "; ".intercalate r.output, failed := r.failed }

end Reporter

end Conform
