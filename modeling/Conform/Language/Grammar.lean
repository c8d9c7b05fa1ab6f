import Conform.BuildError

/-!
# Grammatical categories

Every translated phrase carries a set of categories, and the categories of one phrase choose the
form of the next.
-/

namespace Conform

inductive Category where
  | singular
  | plural
  | masculine
  | feminine
  | neuter
  | nominative
  | genitive
  | dative
  | accusative
  | instrumental
  | prepositional
  | animate
  | inanimate
deriving DecidableEq, Repr

namespace Category

def all : List Category :=
  [singular, plural, masculine, feminine, neuter, nominative, genitive, dative, accusative,
    instrumental, prepositional, animate, inanimate]

/-- The position of the category in `all` and of its bit in a set. -/
def index : Category → Nat
  | singular => 0
  | plural => 1
  | masculine => 2
  | feminine => 3
  | neuter => 4
  | nominative => 5
  | genitive => 6
  | dative => 7
  | accusative => 8
  | instrumental => 9
  | prepositional => 10
  | animate => 11
  | inanimate => 12

def text : Category → String
  | singular => "singular"
  | plural => "plural"
  | masculine => "masculine"
  | feminine => "feminine"
  | neuter => "neuter"
  | nominative => "nominative"
  | genitive => "genitive"
  | dative => "dative"
  | accusative => "accusative"
  | instrumental => "instrumental"
  | prepositional => "prepositional"
  | animate => "animate"
  | inanimate => "inanimate"

/-- The category that a text names. -/
def ofText? (s : String) : Option Category :=
  all.find? (·.text == s)

end Category

/-- A set of categories, one bit each. -/
structure Grammar where
  bits : BitVec 13
deriving DecidableEq, Repr

namespace Grammar

def empty : Grammar :=
  ⟨0⟩

instance : Inhabited Grammar := ⟨empty⟩

def ofCategory (c : Category) : Grammar :=
  ⟨1#13 <<< c.index⟩

def has (g : Grammar) (c : Category) : Bool :=
  g.bits.getLsbD c.index

def isEmpty (g : Grammar) : Bool :=
  g.bits == 0

/-- Whether every category of `h` is in `g`. -/
def contains (g h : Grammar) : Bool :=
  g.bits &&& h.bits == h.bits

def union (g h : Grammar) : Grammar :=
  ⟨g.bits ||| h.bits⟩

theorem has_ofCategory (c d : Category) : (ofCategory c).has d = decide (c = d) := by
  cases c <;> cases d <;> rfl

@[simp] theorem has_empty (c : Category) : empty.has c = false := by
  simp [has, empty]

@[simp] theorem has_union (g h : Grammar) (c : Category) :
    (g.union h).has c = (g.has c || h.has c) := by
  simp [has, union]

/-- Every bit is that of a category. -/
theorem exists_index {i : Nat} (h : i < 13) : ∃ c : Category, c.index = i :=
  have all : ∀ i : Fin 13, ∃ c ∈ Category.all, c.index = i.val := by decide
  let ⟨c, _, hc⟩ := all ⟨i, h⟩
  ⟨c, hc⟩

theorem contains_iff {g h : Grammar} :
    g.contains h = true ↔ ∀ c, h.has c = true → g.has c = true := by
  simp only [contains, beq_iff_eq, has]
  constructor
  · intro e c hc
    have := congrArg (BitVec.getLsbD · c.index) e
    simpa [hc] using this
  · intro all
    apply BitVec.eq_of_getLsbD_eq
    intro i hi
    obtain ⟨c, rfl⟩ := exists_index hi
    rw [BitVec.getLsbD_and]
    cases hc : h.bits.getLsbD c.index
    · simp
    · simp [all c hc]

def categories (g : Grammar) : List Category :=
  Category.all.filter g.has

def count (g : Grammar) : Nat :=
  g.categories.length

/-- The names of the categories in order. -/
def names (g : Grammar) : List String :=
  g.categories.map Category.text

def text (g : Grammar) : String :=
  "|".intercalate g.names

/-- The set of the named categories; the first unknown name is reported. -/
def ofNames (names : List String) : Except BuildError Grammar :=
  names.foldlM (fun g name =>
    match Category.ofText? name with
    | some c => pure (g.union (ofCategory c))
    | none => throw (.unknownCategory name)) empty

end Grammar

end Conform
