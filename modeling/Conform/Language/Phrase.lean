import Conform.Fields
import Conform.Json.Raw
import Conform.Language.Grammar

/-!
# Phrases and their translations

A phrase may have several forms. `PhraseTable.lookup?` picks a form all of whose required
categories are present in the context: the one that requires most, and the first of these.
-/

namespace Conform

/-- A text with the categories it lends to what follows. -/
structure Phrase where
  text : String
  grammar : Grammar
deriving DecidableEq, Inhabited

/-- One form of a translated phrase. -/
structure Form where
  text : String
  /-- The categories that the context must have. -/
  needs : Grammar := .empty
  /-- The categories of the form itself. -/
  grammar : Grammar := .empty
deriving DecidableEq, Inhabited

namespace Form

def phrase (f : Form) : Phrase :=
  ⟨f.text, f.grammar⟩

/-- Keeps the form that requires more; between equals the earlier one. -/
def prefer (best? : Option Form) (f : Form) : Option Form :=
  match best? with
  | some best => if best.needs.count < f.needs.count then some f else some best
  | none => some f

end Form

/-- The forms of each phrase, in the order in which they were added. -/
structure PhraseTable where
  entries : List (String × List Form)
deriving Inhabited

namespace PhraseTable

def empty : PhraseTable :=
  ⟨[]⟩

/-- The number of phrases. -/
def size (t : PhraseTable) : Nat :=
  t.entries.length

def forms (t : PhraseTable) (phrase : String) : List Form :=
  (Fields.get? phrase t.entries).getD []

/-- Gives a phrase these forms and no others. -/
def define (t : PhraseTable) (phrase : String) (forms : List Form) : PhraseTable :=
  ⟨Fields.set phrase forms t.entries⟩

/-- Adds a form to those of a phrase. -/
def insert (t : PhraseTable) (phrase : String) (f : Form) : PhraseTable :=
  t.define phrase (t.forms phrase ++ [f])

theorem forms_define (t : PhraseTable) (phrase other : String) (fs : List Form) :
    (t.define phrase fs).forms other = if other = phrase then fs else t.forms other := by
  simp only [define, forms, Fields.get?_set]
  split <;> rfl

theorem forms_insert (t : PhraseTable) (phrase other : String) (f : Form) :
    (t.insert phrase f).forms other = t.forms other ++ if other = phrase then [f] else [] := by
  simp only [insert, forms_define]
  split <;> simp_all

/-- The form of a phrase that fits the context best. -/
def lookup? (t : PhraseTable) (phrase : String) (context : Grammar) : Option Phrase :=
  (((t.forms phrase).filter fun f => context.contains f.needs).foldl Form.prefer none).map
    Form.phrase

end PhraseTable

/-! ### Reading -/

/-- A list of category names. -/
def Grammar.ofRaw? : Json.Raw → Option Grammar
  | .list items => do
    let names ← items.mapM Json.Raw.str?
    match Grammar.ofNames names with
    | .ok g => some g
    | .error _ => none
  | _ => none

namespace Form

/-- A form written as a record; only its text is required. -/
def ofRaw? (v : Json.Raw) : Option Form := do
  let fields ← v.record? ["text", "requires", "grammar"]
  let text ← (Fields.get? "text" fields).bind Json.Raw.str?
  let needs ← Json.Raw.fieldOr .empty Grammar.ofRaw? "requires" fields
  let grammar ← Json.Raw.fieldOr .empty Grammar.ofRaw? "grammar" fields
  pure { text, needs, grammar }

/-- The forms of one phrase: a plain text, one form, or a list of forms, tried in this order. -/
def listOfRaw? (v : Json.Raw) : Option (List Form) :=
  match v with
  | .str s? => s?.map fun s => [{ text := s }]
  | .list items => ((ofRaw? v).map fun f => [f]).or (items.mapM ofRaw?)
  | _ => (ofRaw? v).map fun f => [f]

end Form

namespace PhraseTable

/-- An object from phrases to their forms, read where `room` more containers may be opened. A
repeated phrase has the forms that come last. -/
def ofRaw? (room : Nat) : Json.Raw → Option PhraseTable
  | .object fields => do
    let entries ← fields.mapM fun (name?, v) => do
      let name ← name?
      if v.kept room then pure (name, ← Form.listOfRaw? v) else none
    pure (entries.foldl (fun t e => t.define e.1 e.2) empty)
  | _ => none

def ofText (s : String) : Except BuildError PhraseTable :=
  match (Json.Raw.ofText? s).bind (ofRaw? (Json.Raw.maxOpen - 1)) with
  | some t => pure t
  | none => throw .malformed

end PhraseTable

end Conform
