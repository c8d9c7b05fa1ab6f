import Conform.Language.Locale
import Conform.Leaf

/-!
# Wording

How members, conditions and questions of existence read in a locale. A condition reads "subject,
phrase, operand". Each phrase is looked up behind the categories of the one before it.
-/

namespace Conform

/-- A stretch of a shown path that is read as one: a single key, or keys under a display name. -/
structure Segment where
  keys : Path
  name? : Option NameSpan

namespace Member

/-- Of the names that start at `start` the one that covers most keys; the last one, if several
do. -/
def nameAt? (names : List NameSpan) (start : Nat) : Option NameSpan :=
  (names.filter fun s => s.start == start && start < s.stop).foldl (fun best? s =>
    match best? with
    | some best => if best.stop ≤ s.stop then some s else some best
    | none => some s) none

/-- Cuts `keys`, which begin at position `start` of a path, into segments. The first `inside` keys
still belong to the segment before; they come first in the result. -/
def cut (names : List NameSpan) : Nat → Nat → Path → Path × List Segment
  | _, _, [] => ([], [])
  | inside + 1, start, k :: ks =>
    let (own, segments) := cut names inside (start + 1) ks
    (k :: own, segments)
  | 0, start, k :: ks =>
    match nameAt? names start with
    | some s =>
      let (own, segments) := cut names (s.stop - start - 1) (start + 1) ks
      ([], ⟨k :: own, some s⟩ :: segments)
    | none =>
      let (own, segments) := cut names 0 (start + 1) ks
      ([], ⟨k :: own, none⟩ :: segments)

theorem cut_keys (names : List NameSpan) (inside start : Nat) (keys : Path) :
    (cut names inside start keys).1 ++ (cut names inside start keys).2.flatMap Segment.keys =
      keys := by
  induction keys generalizing inside start with
  | nil => cases inside <;> simp [cut]
  | cons k ks ih =>
    cases inside with
    | succ n => simp [cut, ih]
    | zero => simp only [cut]; split <;> simp [ih]

theorem cut_zero (names : List NameSpan) (start : Nat) (keys : Path) :
    (cut names 0 start keys).1 = [] := by
  cases keys <;> simp [cut]
  split <;> simp

theorem keys_ne_nil_of_mem_cut {names : List NameSpan} {inside start : Nat} {keys : Path}
    {s : Segment} (h : s ∈ (cut names inside start keys).2) : s.keys ≠ [] := by
  induction keys generalizing inside start with
  | nil => cases inside <;> simp [cut] at h
  | cons k ks ih =>
    cases inside with
    | succ n => exact ih h
    | zero =>
      simp only [cut] at h
      split at h
      all_goals
        rcases List.mem_cons.1 h with rfl | h
        · exact List.cons_ne_nil _ _
        · exact ih h

/-- The segments of the shown path. -/
def segments (m : Member) : List Segment :=
  (cut m.names 0 0 m.shown).2

/-- The segments follow one another without a gap. -/
theorem flatMap_keys_segments (m : Member) : m.segments.flatMap Segment.keys = m.shown := by
  simpa [segments, cut_zero] using cut_keys m.names 0 0 m.shown

end Member

namespace Locale

variable (l : Locale)

/-! ### Members -/

/-- The name of a key. -/
def keyPhrase (context : Grammar) : Key → Phrase
  | .name s => l.phrase s context
  | .index i =>
    let p := l.phrase "element" context
    { p with text := p.text ++ " #" ++ toString i }
  | .property p => l.phrase p.name context
  | .expand (.tree .all _ _) => l.phrase "each node" context
  | .expand (.tree .any _ _) => l.phrase "at least one node" context
  | .expand (.each .all) | .expand (.variadic .all _) => l.phrase "each element" context
  | .expand (.each .any) | .expand (.variadic .any _) => l.phrase "at least one element" context

/-- A display name lends its own categories where its translation has none. -/
def namePhrase (context : Grammar) (s : NameSpan) : Phrase :=
  let p := l.phrase s.text context
  if p.grammar.isEmpty then { p with grammar := s.grammar } else p

def segmentPhrase (context : Grammar) (s : Segment) : Phrase :=
  match s.name?, s.keys with
  | some name, _ => l.namePhrase context name
  | none, k :: _ => l.keyPhrase context k
  | none, [] => ⟨"", context⟩

/-- The owners of what has been named so far, innermost first. -/
def owners (context : Grammar) : List Segment → String
  | [] => ""
  | s :: ss =>
    let link := l.phrase "of" context
    let p := l.segmentPhrase (context.union link.grammar) s
    " " ++ link.text ++ " " ++ p.text ++ owners p.grammar ss

/-- A member reads from the inside out, with the categories of its innermost part. The root has no
text. -/
def memberPhrase (context : Grammar) (m : Member) : Phrase :=
  match m.segments.reverse with
  | [] => ⟨"", context⟩
  | s :: ss =>
    let p := l.segmentPhrase context s
    { p with text := p.text ++ l.owners p.grammar ss }

/-- A member, or a property of it. -/
def subjectPhrase (m : Member) (property? : Option Property) : Phrase :=
  match property?.filter fun p => !p.isValue with
  | none => l.memberPhrase .empty m
  | some p =>
    if m.isRoot then l.phrase p.name .empty
    else if l.propertyFirst then
      let head := l.phrase p.name .empty
      let link := l.phrase "of" head.grammar
      let owner := l.memberPhrase (head.grammar.union link.grammar) m
      { head with text := head.text ++ " " ++ link.text ++ " " ++ owner.text }
    else
      let owner := l.memberPhrase .empty m
      let head := l.phrase p.name owner.grammar
      { head with text := owner.text ++ " " ++ head.text }

/-! ### Conditions -/

/-- The parts that have a text, with spaces between them. -/
def sentence (parts : List String) : String :=
  " ".intercalate (parts.filter (! ·.isEmpty))

/-- A literal; only intervals and lists are introduced by a word. -/
def literal (context : Grammar) (v : Value) : String :=
  match v with
  | .interval .. => (l.phrase "interval" context).text ++ " " ++ v.text
  | .list _ => (l.phrase "range" context).text ++ " " ++ v.text
  | _ => v.text

def operandText (context : Grammar) (c : Check) : String :=
  match c.operand with
  | .value v => l.literal context v
  | .member m =>
    let (owner, p?) := m.splitProperty
    (l.subjectPhrase owner p?).text
  | .sample _ =>
    let subject := l.subjectPhrase c.member c.property?
    let link := l.phrase "of" subject.grammar
    let sample := l.phrase "sample" link.grammar
    if subject.text.isEmpty then sample.text
    else subject.text ++ " " ++ link.text ++ " " ++ sample.text

/-- The wording of a property that is used as a flag with a literal expectation. -/
def flagText? (c : Check) (negate : Bool) : Option String :=
  match c.property?.bind Property.wording?, c.operand with
  | some wording, .value (.bool expected) =>
    if c.operator.isFlag then
      let subject := l.memberPhrase .empty c.member
      let text := if expected == negate then wording.unset else wording.set
      some (sentence [subject.text, (l.phrase text subject.grammar).text])
    else none
  | _, _ => none

/-- What a comparison asks for, or the opposite. -/
def condition (c : Check) (negate : Bool) : String :=
  match l.flagText? c negate with
  | some text => text
  | none =>
    let subject := l.subjectPhrase c.member c.property?
    let phrase := l.phrase (c.operator.describe c.operand.expected negate) subject.grammar
    let operand :=
      if c.operator.showsOperand c.operand.expected negate then l.operandText phrase.grammar c else ""
    sentence [subject.text, phrase.text, operand]

/-- A question of existence. -/
def presence (m : Member) (property? : Option Property) (expected : Bool) : String :=
  let subject := l.subjectPhrase m property?
  let text := if expected then "must exist." else "must not exist."
  sentence [subject.text, (l.phrase text subject.grammar).text]

/-- What a leaf asks for, or the opposite. -/
def leafText (negate : Bool) : Leaf → String
  | .check _ c => l.condition c negate
  | .presence m p? expected => l.presence m p? (expected != negate)

end Locale

end Conform
