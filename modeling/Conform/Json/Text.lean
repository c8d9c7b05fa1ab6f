import Conform.Decimal.Text
import Conform.Json

/-!
# Writing JSON

`Json.text` writes a document without space between its parts.
-/

namespace Conform.Json

/-- The letter that stands for a character behind a backslash. -/
def escape? : Char → Option Char
  | '"' => some '"'
  | '\\' => some '\\'
  | '\x08' => some 'b'
  | '\x0c' => some 'f'
  | '\n' => some 'n'
  | '\r' => some 'r'
  | '\t' => some 't'
  | _ => none

/-- A control character by its number. -/
def escapeControl (c : Char) : List Char :=
  let ds := Nat.toDigits 16 c.toNat
  '\\' :: 'u' :: (List.replicate (4 - ds.length) '0' ++ ds)

def writeChar (c : Char) : List Char :=
  match escape? c with
  | some l => ['\\', l]
  | none => if c.toNat < 0x20 then escapeControl c else [c]

def writeString (s : String) : String :=
  String.ofList ('"' :: s.toList.flatMap writeChar ++ ['"'])

/-- A float with a point, so that it is not read as an integer. -/
def writeFloat (x : Float) : String :=
  let t := Decimal.text x
  if t.contains '.' then t else t ++ ".0"

mutual

def text : Json → String
  | null => "null"
  | bool b => if b then "true" else "false"
  | int n => toString n
  | float x => writeFloat x
  | str s => writeString s
  | list items => "[" ++ textItems items ++ "]"
  | object fields => "\x7b" ++ textFields fields ++ "\x7d"

def textItems : List Json → String
  | [] => ""
  | [v] => text v
  | v :: w :: vs => text v ++ "," ++ textItems (w :: vs)

def textFields : List (String × Json) → String
  | [] => ""
  | [(k, v)] => writeString k ++ ":" ++ text v
  | (k, v) :: g :: fs => writeString k ++ ":" ++ text v ++ "," ++ textFields (g :: fs)

end

end Conform.Json
