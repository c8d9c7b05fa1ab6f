import Conform.Property

/-!
# Keys and paths

A key is one step from an object to another: to a child by name or position, to a computed
property, or to several objects at once. A path is a list of keys. Read as a pattern, a path lets
each of its expansions stand for any one key.
-/

namespace Conform

/-- How the answers for several objects are combined. -/
inductive Quantifier where
  | all
  | any
deriving DecidableEq, Repr

mutual

inductive Key where
  | name (text : String)
  | index (position : Nat)
  /-- Reads a property of the object reached so far. -/
  | property (p : Property)
  /-- Fans out from the object reached so far. -/
  | expand (e : Expansion)

/-- The ways to fan out from a container. -/
inductive Expansion where
  /-- Its elements. -/
  | each (q : Quantifier)
  /-- The container itself and its descendants: the elements of what `children` leads to, down to
  `maxDepth` if that is given. -/
  | tree (q : Quantifier) (children : Key) (maxDepth? : Option Nat)
  /-- Its children at the positions below `count`, a property of the container. -/
  | variadic (q : Quantifier) (count : Property)

end

namespace Key

instance : Inhabited Key := ⟨index 0⟩

/-- Whether the key leads to at most one child. -/
def isLiteral : Key → Bool
  | name _ | index _ => true
  | _ => false

def isExpansion : Key → Bool
  | expand _ => true
  | _ => false

def expansion? : Key → Option Expansion
  | expand e => some e
  | _ => none

def property? : Key → Option Property
  | property p => some p
  | _ => none

def text : Key → String
  | name s => s
  | index i => toString i
  | property p => p.name
  | expand (.each .all) => "*"
  | expand (.each .any) => "?"
  | expand (.tree _ children _) => "**" ++ text children
  | expand (.variadic _ count) => "#" ++ count.name

/-- Equality of keys; properties are told apart by name only. -/
def same : Key → Key → Bool
  | name s, name t => s == t
  | index i, index j => i == j
  | property p, property q => p == q
  | expand (.each q), expand (.each q') => q == q'
  | expand (.tree q children depth?), expand (.tree q' children' depth?') =>
    q == q' && same children children' && depth? == depth?'
  | expand (.variadic q count), expand (.variadic q' count') => q == q' && count == count'
  | _, _ => false

instance : BEq Key := ⟨same⟩

/-- Whether `pattern` stands for `k`. -/
def stands (pattern k : Key) : Bool :=
  pattern.isExpansion || pattern == k

end Key

namespace Expansion

instance : Inhabited Expansion := ⟨each .all⟩

def quantifier : Expansion → Quantifier
  | each q | tree q _ _ | variadic q _ => q

/-- The key that stands for every element in reports. Where each element must pass, reports name
the elements one by one. -/
def display? (e : Expansion) : Option Key :=
  match e.quantifier with
  | .all => none
  | .any => some (.expand e)

end Expansion

/-- The quantifier of a key that fans out. -/
def Key.quantifier? (k : Key) : Option Quantifier :=
  k.expansion?.map Expansion.quantifier

/-! ### Paths -/

abbrev Path := List Key

namespace Path

/-- The keys' texts with points between them. -/
def text : Path → String
  | [] => ""
  | [k] => k.text
  | k :: l :: ks => k.text ++ "." ++ text (l :: ks)

/-- Splits off a trailing property. -/
def splitProperty : Path → Path × Option Property
  | [] => ([], none)
  | [.property p] => ([], some p)
  | k :: ks => (k :: (splitProperty ks).1, (splitProperty ks).2)

/-- Nothing is lost when a trailing property is split off. -/
theorem splitProperty_join (p : Path) :
    (splitProperty p).1 ++ ((splitProperty p).2.map Key.property).toList = p := by
  induction p with
  | nil => rfl
  | cons k ks ih =>
    cases ks with
    | nil => cases k <;> rfl
    | cons l ls =>
      have step : splitProperty (k :: l :: ls) =
          (k :: (splitProperty (l :: ls)).1, (splitProperty (l :: ls)).2) := by
        cases k <;> rfl
      rw [step, List.cons_append, ih]

theorem splitProperty_concat (p : Path) (q : Property) :
    splitProperty (p ++ [.property q]) = (p, some q) := by
  induction p with
  | nil => rfl
  | cons k ks ih => cases ks <;> cases k <;> simp_all [splitProperty]

/-- The position of the first expansion. -/
def firstExpansion? (p : Path) : Option Nat :=
  p.findIdx? Key.isExpansion

/-- Whether the first keys of the path are those of `q`. -/
def startsWith : Path → Path → Bool
  | _, [] => true
  | [], _ :: _ => false
  | k :: ks, l :: ls => k == l && startsWith ks ls

/-- Whether the pattern stands for the whole of a path. -/
def matchesAll : Path → Path → Bool
  | [], [] => true
  | p :: ps, k :: ks => p.stands k && matchesAll ps ks
  | _, _ => false

/-- Whether the pattern stands for the first keys of a path. -/
def covers : Path → Path → Bool
  | [], _ => true
  | _ :: _, [] => false
  | p :: ps, k :: ks => p.stands k && covers ps ks

@[simp] theorem covers_nil (p : Path) : covers [] p = true := by
  simp [covers]

/-- Whether two paths have the same keys. -/
def same : Path → Path → Bool
  | [], [] => true
  | k :: ks, l :: ls => k == l && same ks ls
  | _, _ => false

end Path

end Conform
