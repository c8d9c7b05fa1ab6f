import Conform.Proofs.Places
import Mathlib.Data.List.Forall2

/-!
# What expansions lead to

`Registry.found?` lists what an expansion leads to, with the paths from the container. Visiting is
a loop over that list (`visit_eq`), and each listed path leads to the object listed with it
(`leads_of_mem_found?`).
-/

namespace Conform

theorem forall₂_of_map_eq {α β γ : Type} {f : α → γ} {g : β → γ} {xs : List α} {ys : List β}
    (h : xs.map f = ys.map g) : List.Forall₂ (fun x y => f x = g y ∧ x ∈ xs ∧ y ∈ ys) xs ys := by
  have hpairs : List.Forall₂ (fun x y => f x = g y) xs ys :=
    List.forall₂_map_left_iff.1 (List.forall₂_map_right_iff.1 (h ▸ List.forall₂_refl _))
  obtain ⟨hlen, hzip⟩ := List.forall₂_iff_zip.1 hpairs
  exact List.forall₂_iff_zip.2 ⟨hlen, fun hxy => ⟨hzip hxy, List.of_mem_zip hxy⟩⟩

section Visiting
variable {m : Type → Type} [Monad m] {α β σ : Type}

def ForInStep.andThen (next : σ → m (ForInStep σ)) : ForInStep σ → m (ForInStep σ)
  | .done s => pure (.done s)
  | .yield s => next s

theorem visitEach_cons (visit : α → σ → m (ForInStep σ)) (x : α) (xs : List α) (s : σ) :
    visitEach visit (x :: xs) s = visit x s >>= ForInStep.andThen (visitEach visit xs) := by
  rw [visitEach]
  exact bind_congr fun step => by cases step <;> rfl

theorem visitEach_congr {f : α → σ → m (ForInStep σ)} {g : β → σ → m (ForInStep σ)} {xs : List α}
    {ys : List β} (h : List.Forall₂ (fun x y => f x = g y) xs ys) (s : σ) :
    visitEach f xs s = visitEach g ys s := by
  induction h generalizing s with
  | nil => rfl
  | cons hxy _ ih =>
    rw [visitEach_cons, visitEach_cons, hxy]
    exact bind_congr fun step => by cases step <;> simp [ForInStep.andThen, ih]

theorem visitEach_map (visit : β → σ → m (ForInStep σ)) (f : α → β) (xs : List α) (s : σ) :
    visitEach (fun x => visit (f x)) xs s = visitEach visit (xs.map f) s := by
  induction xs generalizing s with
  | nil => rfl
  | cons x xs ih =>
    simp only [List.map_cons, visitEach_cons]
    exact bind_congr fun step => by cases step <;> simp [ForInStep.andThen, ih]

variable [LawfulMonad m]

theorem visitEach_append (visit : α → σ → m (ForInStep σ)) (xs ys : List α) (s : σ) :
    visitEach visit (xs ++ ys) s = visitEach visit xs s >>= ForInStep.andThen (visitEach visit ys) := by
  induction xs generalizing s with
  | nil => simp [visitEach, ForInStep.andThen]
  | cons x xs ih =>
    simp only [List.cons_append, visitEach_cons, bind_assoc]
    refine bind_congr fun step => ?_
    cases step with
    | done s => simp [ForInStep.andThen]
    | yield s => exact ih s

theorem visitEach_flatMap (visit : β → σ → m (ForInStep σ)) (f : α → List β) (xs : List α) (s : σ) :
    visitEach (fun x => visitEach visit (f x)) xs s = visitEach visit (xs.flatMap f) s := by
  induction xs generalizing s with
  | nil => rfl
  | cons x xs ih =>
    rw [List.flatMap_cons, visitEach_append, visitEach_cons]
    exact bind_congr fun step => by cases step <;> simp [ForInStep.andThen, ih]

end Visiting

/-! ### Lists of places -/

namespace Object

/-- An object and, parents first, its descendants through `children`, each with the path to it. -/
def nodes (children : Key) : Nat → Path → Object → List (Path × Object)
  | 0, path, o => [(path, o)]
  | levels + 1, path, o =>
    (path, o) :: (o.offspring children).flatMap fun e => nodes children levels (path ++ [children, e.1]) e.2

theorem mem_offspring_iff {children : Key} {o : Object} {e : Key × Object} :
    e ∈ o.offspring children ↔ ∃ c es, o.child? children = some c ∧ c.elements? = some es ∧ e ∈ es := by
  unfold offspring
  cases hc : o.child? children with
  | none => simp
  | some c => cases hes : c.elements? <;> simp [hes]

/-- No child is reached by an expansion. -/
theorem offspring_expand (o : Object) (e : Expansion) : o.offspring (.expand e) = [] := by
  cases h : o.child? (.expand e) with
  | none => rw [offspring, h]; rfl
  | some x => cases isLiteral_of_child? h

theorem nodes_expand (e : Expansion) (levels : Nat) (path : Path) (o : Object) :
    o.nodes (.expand e) levels path = [(path, o)] := by
  cases levels with
  | zero => rfl
  | succ levels => rw [nodes, offspring_expand]; rfl

theorem visitTree_eq {m : Type → Type} [Monad m] [LawfulMonad m] {σ : Type} (children : Key)
    (visit : Path × Object → σ → m (ForInStep σ)) (levels : Nat) (path : Path) (o : Object) (s : σ) :
    visitTree children visit levels path o s = visitEach visit (nodes children levels path o) s := by
  induction levels generalizing path o s with
  | zero =>
    rw [visitTree, nodes, visitEach_cons]
    exact (bind_pure (visit (path, o) s)).symm.trans (bind_congr fun step => by cases step <;> rfl)
  | succ levels ih =>
    rw [visitTree, nodes, visitEach_cons]
    refine bind_congr fun step => ?_
    cases step with
    | done s => rfl
    | yield s =>
      rw [ForInStep.andThen, ← visitEach_flatMap]
      exact congrArg (visitEach · (o.offspring children) s) (funext fun e => funext fun s => ih ..)

end Object

namespace Registry

/-- What an expansion leads to from `o`, in the order of the visit; nothing if `o` cannot be
expanded. -/
def found? (r : Registry) (depth? : Option Nat) (o : Object) : Expansion → Option (List (Path × Object))
  | .each _ => o.elements?.map (·.map fun e => ([e.1], e.2))
  | .tree _ children own? => some (o.nodes children ((own?.or depth?).getD o.height) [])
  | .variadic _ count => (r.count? o count).map (childrenBelow o)

theorem visit_eq {m : Type → Type} [Monad m] [LawfulMonad m] {σ : Type} (r : Registry)
    (depth? : Option Nat) (o : Object) (f : Path × Object → σ → m (ForInStep σ)) (s : σ) (e : Expansion) :
    r.visit depth? o f s e = (r.found? depth? o e).map fun found => visitEach f found s := by
  cases e with
  | each q =>
    rw [visit, found?, Option.map_map]
    exact congrArg (Option.map · o.elements?) (funext fun es => visitEach_map f _ es s)
  | tree q children own? => rw [visit, found?, Option.map_some, Object.visitTree_eq]
  | variadic q count => rw [visit, found?, Option.map_map]; rfl

end Registry

/-! ### Places are where their paths lead -/

/-- The path, of names and positions only, leads from `o` to `x`. -/
structure Registry.Leads (r : Registry) (o : Object) (p : Path) (x : Object) : Prop where
  literal : Path.Literal p
  at_eq : r.at? o p = some x

namespace Registry.Leads
variable {r : Registry} {o x y : Object} {p q : Path} {k : Key}

theorem refl (r : Registry) (o : Object) : r.Leads o [] o :=
  ⟨fun _ hk => absurd hk List.not_mem_nil, r.at?_nil o⟩

theorem child (h : o.child? k = some x) : r.Leads o [k] x :=
  ⟨by simpa [Path.Literal] using Object.isLiteral_of_child? h, r.at?_child h⟩

theorem element {es : List (Key × Object)} (ho : o.WellFormed) (he : o.elements? = some es)
    (hm : (k, x) ∈ es) : r.Leads o [k] x :=
  child (Object.child?_of_mem_elements? ho he hm)

theorem trans (h : r.Leads o p x) (h' : r.Leads x q y) : r.Leads o (p ++ q) y :=
  ⟨fun k hk => (List.mem_append.1 hk).elim (h.literal k) (h'.literal k),
    by rw [at?_append, h.at_eq, Option.bind_some, h'.at_eq]⟩

theorem wellFormed (h : r.Leads o p x) (ho : o.WellFormed) : x.WellFormed :=
  wellFormed_at? ho h.at_eq

theorem offspring {children : Key} {e : Key × Object} (ho : o.WellFormed)
    (he : e ∈ o.offspring children) : r.Leads o [children, e.1] e.2 := by
  obtain ⟨c, es, hc, hes, he⟩ := Object.mem_offspring_iff.1 he
  have hlead : r.Leads o [children] c := child hc
  exact hlead.trans (element (hlead.wellFormed ho) hes he)

end Registry.Leads

/-- Whether the container itself is among what the expansion leads to. -/
def Expansion.isTree : Expansion → Bool
  | tree .. => true
  | each _ | variadic .. => false

namespace Registry
variable {r : Registry} {o x : Object} {p q s : Path} {e : Expansion} {depth? : Option Nat}
  {found : List (Path × Object)}

theorem leads_of_mem_nodes {children : Key} {levels : Nat} (ho : o.WellFormed)
    (h : (q, x) ∈ o.nodes children levels p) : ∃ s, q = p ++ s ∧ r.Leads o s x := by
  induction levels generalizing p o with
  | zero =>
    cases List.mem_singleton.1 h
    exact ⟨[], (List.append_nil _).symm, .refl r _⟩
  | succ levels ih =>
    rcases List.mem_cons.1 h with heq | h
    · cases heq
      exact ⟨[], (List.append_nil _).symm, .refl r _⟩
    · obtain ⟨e, he, h⟩ := List.mem_flatMap.1 h
      have hlead : r.Leads o [children, e.1] e.2 := .offspring ho he
      obtain ⟨s, rfl, hs⟩ := ih (hlead.wellFormed ho) h
      exact ⟨[children, e.1] ++ s, List.append_assoc .., hlead.trans hs⟩

theorem literal_of_mem_offspring {children : Key} {e : Key × Object} (he : e ∈ o.offspring children) :
    Path.Literal [children, e.1] := by
  obtain ⟨c, es, hc, hes, he⟩ := Object.mem_offspring_iff.1 he
  exact List.forall_mem_cons.2 ⟨Object.isLiteral_of_child? hc,
    List.forall_mem_singleton.2 (Object.isLiteral_of_mem_elements? hes he)⟩

theorem literal_of_mem_nodes {children : Key} {levels : Nat} (hp : p.Literal)
    (h : (q, x) ∈ o.nodes children levels p) : q.Literal := by
  induction levels generalizing p o with
  | zero =>
    cases List.mem_singleton.1 h
    exact hp
  | succ levels ih =>
    rcases List.mem_cons.1 h with heq | h
    · cases heq
      exact hp
    · obtain ⟨e, he, h⟩ := List.mem_flatMap.1 h
      exact ih (List.forall_mem_append.2 ⟨hp, literal_of_mem_offspring he⟩) h

theorem literal_of_mem_found? (hf : r.found? depth? o e = some found) (hm : (s, x) ∈ found) : s.Literal := by
  cases e with
  | each q =>
    obtain ⟨es, hes, rfl⟩ := Option.map_eq_some_iff.1 hf
    obtain ⟨⟨k, y⟩, hk, heq⟩ := List.mem_map.1 hm
    cases heq
    exact List.forall_mem_singleton.2 (Object.isLiteral_of_mem_elements? hes hk)
  | tree q children own? =>
    cases hf
    exact literal_of_mem_nodes (fun k hk => absurd hk List.not_mem_nil) hm
  | variadic q count =>
    obtain ⟨n, -, rfl⟩ := Option.map_eq_some_iff.1 hf
    obtain ⟨i, -, hi⟩ := List.mem_filterMap.1 hm
    obtain ⟨c, -, heq⟩ := Option.map_eq_some_iff.1 hi
    cases heq
    exact List.forall_mem_singleton.2 rfl

/-- A tree goes down by two keys at a time. -/
theorem path_of_mem_nodes {children : Key} {levels : Nat} (h : (q, x) ∈ o.nodes children levels p) :
    q = p ∨ ∃ k s, q = p ++ children :: k :: s := by
  induction levels generalizing p o with
  | zero =>
    cases List.mem_singleton.1 h
    exact .inl rfl
  | succ levels ih =>
    rcases List.mem_cons.1 h with heq | h
    · cases heq
      exact .inl rfl
    · obtain ⟨e, -, h⟩ := List.mem_flatMap.1 h
      rcases ih h with rfl | ⟨k, s, rfl⟩
      · exact .inr ⟨e.1, [], rfl⟩
      · exact .inr ⟨e.1, children :: k :: s, List.append_assoc ..⟩

theorem leads_of_mem_found? (ho : o.WellFormed) (hf : r.found? depth? o e = some found)
    (hm : (s, x) ∈ found) : r.Leads o s x := by
  cases e with
  | each q =>
    obtain ⟨es, hes, rfl⟩ := Option.map_eq_some_iff.1 hf
    obtain ⟨⟨k, y⟩, hk, heq⟩ := List.mem_map.1 hm
    cases heq
    exact .element ho hes hk
  | tree q children own? =>
    cases hf
    obtain ⟨s', hs', h⟩ := leads_of_mem_nodes ho hm
    rw [List.nil_append] at hs'
    exact hs' ▸ h
  | variadic q count =>
    obtain ⟨n, -, rfl⟩ := Option.map_eq_some_iff.1 hf
    obtain ⟨i, -, hi⟩ := List.mem_filterMap.1 hm
    obtain ⟨c, hc, heq⟩ := Option.map_eq_some_iff.1 hi
    cases heq
    exact .child hc

theorem isTree_of_mem_found? (hf : r.found? depth? o e = some found) (hm : ([], x) ∈ found) :
    e.isTree = true := by
  cases e with
  | tree => rfl
  | each q =>
    obtain ⟨es, -, rfl⟩ := Option.map_eq_some_iff.1 hf
    simp at hm
  | variadic q count =>
    obtain ⟨n, -, rfl⟩ := Option.map_eq_some_iff.1 hf
    simp [childrenBelow] at hm

/-- Only trees go further than one step. -/
theorem exists_key_of_mem_found? (he : e.isTree = false) (hf : r.found? depth? o e = some found) (hm : (s, x) ∈ found) :
    ∃ k, s = [k] := by
  cases e with
  | tree => cases he
  | each q =>
    obtain ⟨es, -, rfl⟩ := Option.map_eq_some_iff.1 hf
    obtain ⟨⟨k, y⟩, -, heq⟩ := List.mem_map.1 hm
    cases heq
    exact ⟨k, rfl⟩
  | variadic q count =>
    obtain ⟨n, -, rfl⟩ := Option.map_eq_some_iff.1 hf
    obtain ⟨i, -, hi⟩ := List.mem_filterMap.1 hm
    obtain ⟨c, -, heq⟩ := Option.map_eq_some_iff.1 hi
    cases heq
    exact ⟨.index i, rfl⟩

end Registry

end Conform
