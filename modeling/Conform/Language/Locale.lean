import Conform.Language.Phrase
import Conform.Text.Quoted

/-!
# Locales

A locale translates phrases and says whether a property stands before its owner ("size of a") or
behind it ("a size"). A phrase that a locale does not translate is kept as it is.
-/

namespace Conform

structure Locale where
  name : String
  propertyFirst : Bool := true
  /-- The translation of a phrase behind a phrase of the given categories. -/
  translate? : String → Grammar → Option Phrase

namespace Locale

def ofTable (name : String) (t : PhraseTable) : Locale :=
  { name, translate? := t.lookup? }

/-- Phrases are used as they are, properties come first. -/
def english : Locale :=
  ofTable "en" .empty

instance : Inhabited Locale := ⟨english⟩

/-- A locale written as a record; its name is required. -/
def ofRaw? (v : Json.Raw) : Option Locale := do
  let fields ← v.record? ["name", "property_first", "phrases"]
  let name ← (Fields.get? "name" fields).bind Json.Raw.str?
  let propertyFirst ← Json.Raw.fieldOr true Json.Raw.bool? "property_first" fields
  let table ← Json.Raw.fieldOr .empty (PhraseTable.ofRaw? (Json.Raw.maxOpen - 2)) "phrases" fields
  pure { ofTable name table with propertyFirst }

def ofText (s : String) : Except BuildError Locale :=
  match (Json.Raw.ofText? s).bind ofRaw? with
  | some l => pure l
  | none => throw .malformed

/-- How a locale is shown for diagnosis. -/
def describe (l : Locale) : String :=
  "Locale \x7b name: " ++ Text.quote l.name ++ ", property_first: " ++
    (if l.propertyFirst then "true" else "false") ++ ", .. \x7d"

/-- A phrase in the locale. -/
def phrase (l : Locale) (text : String) (context : Grammar) : Phrase :=
  (l.translate? text context).getD ⟨text, .empty⟩

/-- A word that stands alone. -/
def word (l : Locale) (text : String) : String :=
  (l.phrase text .empty).text

end Locale

end Conform
