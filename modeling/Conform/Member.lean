import Conform.Key
import Conform.Language.Grammar

/-!
# Members

A member is a place in the validated object: the path to it, and how reports show it. Where any
one of several elements would do, the shown path keeps the expansion; display names stand for
stretches of the shown path.
-/

namespace Conform

/-- A display name for the keys from `start` to before `stop` of the shown path. -/
structure NameSpan where
  text : String
  grammar : Grammar
  start : Nat
  stop : Nat
deriving Inhabited

structure Member where
  path : Path := []
  /-- The shown path where it is not the path itself. -/
  display? : Option Path := none
  names : List NameSpan := []
deriving Inhabited

namespace Member

/-- The validated object itself. -/
def root : Member :=
  {}

def isRoot (m : Member) : Bool :=
  m.path.isEmpty

/-- A member of a given path, which must not be empty. -/
def ofPath (p : Path) : Except BuildError Member :=
  if p.isEmpty then throw .emptyPath else pure { path := p }

/-- The path shown in reports. -/
def shown (m : Member) : Path :=
  m.display?.getD m.path

def dotted (m : Member) : String :=
  Path.text m.path

def trailingProperty? (m : Member) : Option Property :=
  (Path.splitProperty m.path).2

/-- Splits off a trailing property; the member then is the object that has the property. -/
def splitProperty (m : Member) : Member × Option Property :=
  match Path.splitProperty m.path with
  | (_, none) => (m, none)
  | (path, some p) => ({ m with path, display? := m.display?.map List.dropLast }, some p)

/-! ### Composition -/

/-- The member followed by further keys. -/
def extend (m : Member) (keys : Path) : Member :=
  { m with path := m.path ++ keys, display? := m.display?.map (· ++ keys) }

@[simp] theorem extend_nil (m : Member) : m.extend [] = m := by
  obtain ⟨_, display?, _⟩ := m
  cases display? <;> simp [extend]

theorem extend_append (m : Member) (p q : Path) : m.extend (p ++ q) = (m.extend p).extend q := by
  obtain ⟨_, display?, _⟩ := m
  cases display? <;> simp [extend]

@[simp] theorem shown_extend (m : Member) (p : Path) : (m.extend p).shown = m.shown ++ p := by
  obtain ⟨_, display?, _⟩ := m
  cases display? <;> simp [extend, shown]

/-- The member under a display name that stands for the whole of its path. -/
def named (m : Member) (text : String) (grammar : Grammar) : Member :=
  { m with names := [{ text, grammar, start := 0, stop := m.shown.length }] }

/-- Takes over the display names of `bound`, whose path is about to be appended. -/
def adoptNames (m bound : Member) : Member :=
  let offset := m.shown.length
  let shifted := bound.names.map fun s =>
    { s with start := s.start + offset, stop := s.stop + offset }
  { m with names := m.names ++ shifted }

/-- An element of a container: `suffix` leads to it, and reports show `display?` instead if that
is given. -/
def element (m : Member) (suffix : Path) (display? : Option Key) : Member :=
  let shown? := match display? with
    | some k => some (m.shown ++ [k])
    | none => m.display?.map (· ++ suffix)
  { m with path := m.path ++ suffix, display? := shown? }

end Member

end Conform
