import Conform.Registry

/-!
# Following paths

`Registry.find?` follows a path without expansions, `Registry.visit` fans out along an expansion,
and `Registry.reaches` tells whether a path with expansions leads anywhere. Crossing a property
turns the object into a computed value, and the rest of the path is followed inside that value.
-/

namespace Conform

/-- Where a path leads. -/
inductive Found where
  /-- A part of the object. -/
  | stored (o : Object)
  /-- A value that a property computed. -/
  | computed (v : Value)
deriving Inhabited

namespace Found

def object : Found → Object
  | stored o => o
  | computed v => .value v

def scalar? : Found → Option Value
  | stored o => o.scalar?
  | computed v => some v

def isComputed : Found → Bool
  | stored _ => false
  | computed _ => true

/-- One literal step. -/
def child? (k : Key) : Found → Option Found
  | stored o => (o.child? k).map stored
  | computed v => (((Object.value v).child? k).bind Object.scalar?).map computed

end Found

/-! ### Visiting -/

section Visiting

variable {m : Type → Type} [Monad m] {α σ : Type}

/-- Visits the items in order until a visit is `done`. -/
def visitEach (visit : α → σ → m (ForInStep σ)) : List α → σ → m (ForInStep σ)
  | [], s => pure (.yield s)
  | x :: xs, s => do
    match ← visit x s with
    | .done s => pure (.done s)
    | .yield s => visitEach visit xs s

/-- The elements of what the key leads to. -/
def Object.offspring (children : Key) (o : Object) : List (Key × Object) :=
  ((o.child? children).bind Object.elements?).getD []

/-- Visits an object and, parents first, its descendants through `children` down to `levels`
levels below it. `path` leads to the object. -/
def visitTree (children : Key) (visit : Path × Object → σ → m (ForInStep σ)) :
    Nat → Path → Object → σ → m (ForInStep σ)
  | 0, path, o, s => visit (path, o) s
  | levels + 1, path, o, s => do
    match ← visit (path, o) s with
    | .done s => pure (.done s)
    | .yield s =>
      visitEach (fun e => visitTree children visit levels (path ++ [children, e.1]) e.2)
        (o.offspring children) s

end Visiting

namespace Registry

/-- One step along a key. -/
def step? (r : Registry) (f : Found) : Key → Option Found
  | .name s => f.child? (.name s)
  | .index i => f.child? (.index i)
  | .property p => (r.read? f.object p).map .computed
  | .expand _ => none

/-- Follows a path; there is no way on at a missing key or at an expansion. -/
def find? (r : Registry) (o : Object) (path : Path) : Option Found :=
  path.foldlM r.step? (.stored o)

/-- The positions that a variadic key stands for. -/
def count? (r : Registry) (o : Object) (count : Property) : Option Nat :=
  ((r.read? o count).bind Value.int?).bind Int.toNat?

/-- The children at the positions below `n`; missing ones are passed over, and none is at or
beyond the size. -/
def childrenBelow (o : Object) (n : Nat) : List (Path × Object) :=
  (List.range (min n (o.size?.getD 0))).filterMap fun i =>
    (o.child? (.index i)).map fun c => ([.index i], c)

/-- Visits what an expansion leads to from `o`, each with the path to it. Trees that name no depth
go down to `depth?`. There is no result if `o` cannot be expanded. -/
def visit {m : Type → Type} [Monad m] {σ : Type} (r : Registry) (depth? : Option Nat) (o : Object)
    (f : Path × Object → σ → m (ForInStep σ)) (s : σ) : Expansion → Option (m (ForInStep σ))
  | .each _ => o.elements?.map fun es => visitEach (fun e => f ([e.1], e.2)) es s
  | .tree _ children own? => some (visitTree children f ((own?.or depth?).getD o.height) [] o s)
  | .variadic _ count => (r.count? o count).map fun n => visitEach f (childrenBelow o n) s

/-- Whether a path leads from `f` to something, through one element at least of each expansion. -/
def reachesFrom (r : Registry) : Path → Found → Bool
  | [], _ => true
  | .expand e :: rest, f =>
    let look (e : Path × Object) (_ : Bool) : Id (ForInStep Bool) :=
      if reachesFrom r rest (.stored e.2) then .done true else .yield false
    match r.visit none f.object look false e with
    | some (.done found) | some (.yield found) => found
    | none => false
  | k :: rest, f =>
    match r.step? f k with
    | some g => reachesFrom r rest g
    | none => false

def reaches (r : Registry) (o : Object) (path : Path) : Bool :=
  r.reachesFrom path (.stored o)

end Registry

end Conform
