import Conform.Validator

/-!
# Writing into documents

`Json.put` walks a path and sets what it finds there. Names are looked up in objects, and a missing
name is added; a null on the way becomes an object; positions must exist. `Validator.commit` writes
a candidate that the rules accept.
-/

namespace Conform

namespace Json

/-- Sets the place that a path leads to. Gives the document as the walk leaves it and whether the
path has a place: nulls that became objects and names that were added stay even if it has not. -/
def put (candidate : Json) : Path → Json → Json × Bool
  | [], _ => (candidate, true)
  | .name s :: rest, doc =>
    match doc with
    | null =>
      let (v, ok) := put candidate rest .null
      (object [(s, v)], ok)
    | object fields =>
      let (v, ok) := put candidate rest ((Fields.get? s fields).getD .null)
      (object (Fields.set s v fields), ok)
    | doc => (doc, false)
  | .index i :: rest, doc =>
    match doc with
    | list items =>
      match items[i]? with
      | some item =>
        let (v, ok) := put candidate rest item
        (list (items.set i v), ok)
      | none => (doc, false)
    | doc => (doc, false)
  | _ :: _, doc => (doc, false)

end Json

namespace Validator

/-- Checks a candidate for a member of a document and writes it if the rules accept it. Gives the
document afterwards and why the candidate was refused, if it was. -/
def commit (v : Validator) (doc : Json) (m : Member) (candidate : Json) :
    Json × Except Failure Unit :=
  match (v.prevalidate (.json doc) m (.json candidate)).result with
  | .error f => (doc, .error f)
  | .ok () =>
    match Json.put candidate m.path doc with
    | (doc, true) => (doc, .ok ())
    | (doc, false) => (doc, .error (.unwritable m.dotted))

end Validator

end Conform
