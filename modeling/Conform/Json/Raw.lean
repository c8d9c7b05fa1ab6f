import Conform.Json.Numeral

/-!
# JSON texts as written

`Raw` is the syntax of a JSON text: repeated names are still there, numbers are numerals, and a
string with an unpaired surrogate is allowed but has no text. `Raw.ofText?` reads one; what else a
reader asks of the parts that it keeps is `Raw.kept`.
-/

namespace Conform.Json

inductive Raw where
  | null
  | bool (b : Bool)
  | number (t : Numeral)
  | str (s? : Option String)
  | list (items : List Raw)
  | object (fields : List (Option String × Raw))
deriving Inhabited

/-! ### Strings -/

def hexDigit? (c : Char) : Option Nat :=
  if c.isDigit then some (c.toNat - '0'.toNat)
  else if 'a' ≤ c ∧ c ≤ 'f' then some (c.toNat - 'a'.toNat + 10)
  else if 'A' ≤ c ∧ c ≤ 'F' then some (c.toNat - 'A'.toNat + 10)
  else none

def hex4? (a b c d : Char) : Option Nat := do
  pure (((← hexDigit? a) * 16 + (← hexDigit? b)) * 256 + (← hexDigit? c) * 16 + (← hexDigit? d))

/-- The character a letter stands for behind a backslash. -/
def unescape? : Char → Option Char
  | '"' => some '"'
  | '\\' => some '\\'
  | '/' => some '/'
  | 'b' => some '\x08'
  | 'f' => some '\x0c'
  | 'n' => some '\n'
  | 'r' => some '\r'
  | 't' => some '\t'
  | _ => none

/-- The code points up to the closing quote, latest first in front of `out`; escaped surrogates
stay single. Also gives the text behind the quote. -/
def scanString (out : List Nat) : List Char → Option (List Nat × List Char)
  | '"' :: cs => some (out, cs)
  | '\\' :: 'u' :: a :: b :: c :: d :: cs =>
    match hex4? a b c d with
    | some n => scanString (n :: out) cs
    | none => none
  | '\\' :: e :: cs =>
    match unescape? e with
    | some c => scanString (c.toNat :: out) cs
    | none => none
  | c :: cs => if c.toNat < 0x20 || c = '\\' then none else scanString (c.toNat :: out) cs
  | [] => none

def isHighSurrogate (n : Nat) : Bool :=
  0xD800 ≤ n && n < 0xDC00

def isLowSurrogate (n : Nat) : Bool :=
  0xDC00 ≤ n && n < 0xE000

/-- Joins the surrogate pairs among code points given latest first; there is no text if one stays
unpaired. -/
def joinPairs (out : List Char) : List Nat → Option (List Char)
  | [] => some out
  | [n] => if isHighSurrogate n || isLowSurrogate n then none else some (Char.ofNat n :: out)
  | low :: high :: ns =>
    if isLowSurrogate low then
      if isHighSurrogate high then
        joinPairs (Char.ofNat (0x10000 + (high - 0xD800) * 0x400 + (low - 0xDC00)) :: out) ns
      else none
    else if isHighSurrogate low then none
    else joinPairs (Char.ofNat low :: out) (high :: ns)

/-- A string whose opening quote has been read. -/
def readString? (cs : List Char) : Option (Option String × List Char) := do
  let (points, rest) ← scanString [] cs
  pure ((joinPairs [] points).map String.ofList, rest)

/-! ### Numbers -/

/-- A nonempty run of digits. -/
def readDigits? (cs : List Char) : Option (List Char × List Char) :=
  let ds := cs.takeWhile Char.isDigit
  if ds.isEmpty then none else some (ds, cs.dropWhile Char.isDigit)

/-- Digits of which the first is zero only if it is the only one. -/
def readWhole? : List Char → Option (List Char × List Char)
  | '0' :: cs => if (cs.head?.map Char.isDigit).getD false then none else some (['0'], cs)
  | cs => readDigits? cs

def readFraction? : List Char → Option (List Char × List Char)
  | '.' :: cs => readDigits? cs
  | cs => some ([], cs)

def readExponent? : List Char → Option (Option (Bool × List Char) × List Char)
  | c :: cs =>
    if c = 'e' || c = 'E' then do
      let (negative, r) := Decimal.takeSign cs
      let (ds, r) ← readDigits? r
      pure (some (negative, ds), r)
    else some (none, c :: cs)
  | [] => some (none, [])

def readNumeral? (cs : List Char) : Option (Numeral × List Char) := do
  let (negative, r) := match cs with
    | '-' :: r => (true, r)
    | r => (false, r)
  let (whole, r) ← readWhole? r
  let (fraction, r) ← readFraction? r
  let (exponent?, r) ← readExponent? r
  pure ({ negative, whole, fraction, exponent? }, r)

/-! ### Values -/

def isSpace (c : Char) : Bool :=
  c = ' ' || c = '\t' || c = '\n' || c = '\r'

def skip (cs : List Char) : List Char :=
  cs.dropWhile isSpace

/-- A literal word. -/
def readWord? (w : List Char) (r : Raw) (cs : List Char) : Option (Raw × List Char) :=
  if w.isPrefixOf cs then some (r, cs.drop w.length) else none

mutual

/-- A value in front of `cs`; `depth` bounds the calls that are open at once. -/
def readValue? (depth : Nat) (cs : List Char) : Option (Raw × List Char) :=
  match depth with
  | 0 => none
  | depth + 1 =>
    match skip cs with
    | '"' :: r => do
      let (s?, r) ← readString? r
      pure (.str s?, r)
    | '[' :: r =>
      match skip r with
      | ']' :: r => some (.list [], r)
      | r => do
        let (items, r) ← readItems? depth r
        pure (.list items, r)
    | '\x7b' :: r =>
      match skip r with
      | '\x7d' :: r => some (.object [], r)
      | r => do
        let (fields, r) ← readFields? depth r
        pure (.object fields, r)
    | 'n' :: r => readWord? "ull".toList .null r
    | 't' :: r => readWord? "rue".toList (.bool true) r
    | 'f' :: r => readWord? "alse".toList (.bool false) r
    | r => do
      let (t, r) ← readNumeral? r
      pure (.number t, r)

/-- Items up to the closing bracket, of which there is at least one. -/
def readItems? (depth : Nat) (cs : List Char) : Option (List Raw × List Char) :=
  match depth with
  | 0 => none
  | depth + 1 => do
    let (v, r) ← readValue? depth cs
    match skip r with
    | ',' :: r =>
      let (vs, r) ← readItems? depth r
      pure (v :: vs, r)
    | ']' :: r => pure ([v], r)
    | _ => none

/-- Fields up to the closing brace, of which there is at least one. -/
def readFields? (depth : Nat) (cs : List Char) :
    Option (List (Option String × Raw) × List Char) :=
  match depth with
  | 0 => none
  | depth + 1 =>
    match skip cs with
    | '"' :: r => do
      let (name?, r) ← readString? r
      match skip r with
      | ':' :: r =>
        let (v, r) ← readValue? depth r
        match skip r with
        | ',' :: r =>
          let (fs, r) ← readFields? depth r
          pure ((name?, v) :: fs, r)
        | '\x7d' :: r => pure ([(name?, v)], r)
        | _ => none
      | _ => none
    | _ => none

end

namespace Raw

/-- Reads a whole text; nothing but space may follow the value. -/
def ofText? (s : String) : Option Raw := do
  let cs := s.toList
  let (v, r) ← readValue? (cs.length + 1) cs
  if (skip r).isEmpty then pure v else none

/-- How many containers may be open at once in a document. -/
def maxOpen : Nat :=
  127

mutual

/-- Whether a value can be kept where `room` more containers may be opened: its strings have a
text and its numbers are finite. -/
def kept (room : Nat) : Raw → Bool
  | null => true
  | bool _ => true
  | number t => t.json?.isSome
  | str s? => s?.isSome
  | list items => decide (0 < room) && keptItems (room - 1) items
  | object fields => decide (0 < room) && keptFields (room - 1) fields

def keptItems (room : Nat) : List Raw → Bool
  | [] => true
  | v :: vs => kept room v && keptItems room vs

def keptFields (room : Nat) : List (Option String × Raw) → Bool
  | [] => true
  | (name?, v) :: fs => name?.isSome && kept room v && keptFields room fs

end

mutual

/-- The document of a value that can be kept. -/
def json : Raw → Json
  | null => .null
  | bool b => .bool b
  | number t => t.json?.getD .null
  | str s? => .str (s?.getD "")
  | list items => .list (jsonItems items)
  | object fields => .ofFields (jsonFields fields)

def jsonItems : List Raw → List Json
  | [] => []
  | v :: vs => json v :: jsonItems vs

def jsonFields : List (Option String × Raw) → List (String × Json)
  | [] => []
  | (name?, v) :: fs => (name?.getD "", json v) :: jsonFields fs

end

/-- The document that a value is, if it can be kept. -/
def json? (v : Raw) : Option Json :=
  if v.kept maxOpen then some v.json else none

/-! ### Records -/

/-- The fields of a record with the given field names, written as an object or as an array in the
order of `names`. Unknown fields of an object are skipped, a known one may not be repeated, and an
array may be shorter but not longer than `names`. -/
def record? (names : List String) : Raw → Option (List (String × Raw))
  | object fields => do
    let named ← fields.mapM fun (name?, v) => name?.map fun n => (n, v)
    let known := named.filter fun f => names.contains f.1
    if (known.map (·.1)).Nodup then some known else none
  | list items => if items.length ≤ names.length then some (names.zip items) else none
  | _ => none

/-- A field of a record, or a default where it is not written. -/
def fieldOr {α : Type} (default : α) (read? : Raw → Option α) (name : String)
    (fields : List (String × Raw)) : Option α :=
  match Fields.get? name fields with
  | some v => read? v
  | none => some default

/-- The constructor named by a text, or by an object whose only field is null. -/
def choice? : Raw → Option String
  | str s? => s?
  | object [(name?, null)] => name?
  | _ => none

def str? : Raw → Option String
  | str s? => s?
  | _ => none

def bool? : Raw → Option Bool
  | bool b => some b
  | _ => none

end Raw

end Conform.Json
