import Conform.Proofs.Concretions
import Conform.Proofs.Mentioned
import Mathlib.Data.List.Induction

/-!
# Positions below the size in the place of elements

`Key.Counted` relates a key to one that runs through the positions below the size of a container
instead of through its elements. The two lead to the same in an array (`Registry.found?_counted`), so
that paths which differ in such keys lead to the same and ask the same, as long as these keys are
applied to arrays (`Cursor.has_counted`). What they are applied to is listed by `Registry.applied`.
-/

namespace Conform

/-! ### Keys -/

/-- The second key is the first or, where that is allowed, it counts what the first runs through:
the positions below the size are in the place of the elements. -/
inductive Key.Counted (allowed : Bool) : Key → Key → Prop
  | same (k : Key) : Counted allowed k k
  | size (q : Quantifier) (h : allowed = true) : Counted allowed (.expand (.each q)) (.expand (.variadic q .size))
  | children (q : Quantifier) {k k' : Key} (depth? : Option Nat) (h : Counted allowed k k') :
    Counted allowed (.expand (.tree q k depth?)) (.expand (.tree q k' depth?))

namespace Key.Counted
variable {allowed : Bool} {k k' : Key} {e : Expansion}

theorem mono (h : Counted allowed k k') : Counted true k k' := by
  induction h with
  | same k => exact .same k
  | size q => exact .size q rfl
  | children q depth? _ ih => exact .children q depth? ih

theorem eq (h : Counted false k k') : k = k' := by
  induction h with
  | same => rfl
  | size q h => cases h
  | children q depth? _ ih => rw [ih]

theorem isExpansion_eq (h : Counted allowed k k') : k.isExpansion = k'.isExpansion := by
  cases h <;> rfl

theorem eq_of_isExpansion (h : Counted allowed k k') (hk : k.isExpansion = false) : k = k' := by
  cases h with
  | same => rfl
  | size | children => cases hk

theorem exists_expansion (h : Counted allowed (.expand e) k') : ∃ e', k' = .expand e' ∧ e.quantifier = e'.quantifier := by
  cases h with
  | same => exact ⟨e, rfl, rfl⟩
  | size | children => exact ⟨_, rfl, rfl⟩

theorem stands_eq (h : Counted allowed k k') (pattern : Key) : pattern.stands k = pattern.stands k' := by
  cases h with
  | same => rfl
  | size | children => cases pattern <;> simp [stands, isExpansion, BEq.beq, Key.same]

end Key.Counted

/-! ### Paths -/

namespace Path

/-- Key by key the second path is the first, or counts what that runs through. -/
def Counted (allowed : Bool) (p p' : Path) : Prop :=
  List.Forall₂ (Key.Counted allowed) p p'

variable {allowed : Bool} {p p' q q' : Path}

namespace Counted

theorem refl (allowed : Bool) (p : Path) : p.Counted allowed p :=
  List.forall₂_same.2 fun k _ => .same k

theorem mono (h : p.Counted allowed p') : p.Counted true p' :=
  List.Forall₂.imp (fun _ _ => Key.Counted.mono) h

theorem eq (h : p.Counted false p') : p = p' :=
  List.forall₂_eq_eq_eq ▸ List.Forall₂.imp (fun _ _ => Key.Counted.eq) h

theorem length_eq (h : p.Counted allowed p') : p.length = p'.length :=
  List.Forall₂.length_eq h

theorem append (h : p.Counted allowed p') (hq : q.Counted allowed q') : Path.Counted allowed (p ++ q) (p' ++ q') :=
  List.rel_append h hq

theorem drop (h : p.Counted allowed p') (n : Nat) : Path.Counted allowed (p.drop n) (p'.drop n) :=
  List.forall₂_drop n h

theorem isExpansion_eq (h : p.Counted allowed p') : p.map Key.isExpansion = p'.map Key.isExpansion := by
  induction h with
  | nil => rfl
  | cons hk _ ih => rw [List.map_cons, List.map_cons, hk.isExpansion_eq, ih]

theorem firstExpansion? (h : p.Counted allowed p') : p.firstExpansion? = p'.firstExpansion? := by
  have hfind : ∀ p : Path, p.firstExpansion? = (p.map Key.isExpansion).findIdx? id := fun p => by
    rw [List.findIdx?_map]
    rfl
  rw [hfind, hfind, h.isExpansion_eq]

theorem take_firstExpansion? (h : p.Counted allowed p') :
    p.take (p.firstExpansion?.getD p.length) = p'.take (p'.firstExpansion?.getD p'.length) := by
  rw [Path.take_firstExpansion?, Path.take_firstExpansion?]
  induction h with
  | nil => rfl
  | @cons k k' p p' hk _ ih =>
    rw [List.takeWhile_cons, List.takeWhile_cons, ← hk.isExpansion_eq]
    split
    next hexpands =>
      rw [hk.eq_of_isExpansion (by simpa using hexpands), ih]
    next => rfl

theorem covers (h : p.Counted allowed p') (pattern : Path) : Path.covers pattern p = Path.covers pattern p' := by
  induction pattern generalizing p p' with
  | nil => rw [covers_nil, covers_nil]
  | cons l pattern ih =>
    cases h with
    | nil => rfl
    | cons hk hp => rw [Path.covers, Path.covers, hk.stands_eq, ih hp]

theorem splitProperty (h : p.Counted allowed p') :
    (Path.splitProperty p).1.Counted allowed (Path.splitProperty p').1 ∧
      (Path.splitProperty p).2 = (Path.splitProperty p').2 := by
  induction h with
  | nil => exact ⟨.nil, rfl⟩
  | @cons k k' p p' hk hp ih =>
    cases hp with
    | nil =>
      cases hk with
      | same k => exact ⟨.refl allowed _, rfl⟩
      | size q h => exact ⟨.cons (.size q h) .nil, rfl⟩
      | children q depth? h => exact ⟨.cons (.children q depth? h) .nil, rfl⟩
    | cons _ _ =>
      rw [splitProperty_cons_cons, splitProperty_cons_cons]
      exact ⟨.cons hk ih.1, ih.2⟩

end Counted

end Path

/-! ### Lookups -/

namespace Registry
variable {allowed : Bool} {r : Registry} {o x : Object} {p p' : Path}

theorem next?_counted {k k' : Key} (h : k.Counted allowed k') : r.next? o k = r.next? o k' := by
  cases h <;> rfl

theorem at?_counted (h : p.Counted allowed p') : r.at? o p = r.at? o p' := by
  induction h generalizing o with
  | nil => rfl
  | cons hk _ ih =>
    rw [at?_cons, at?_cons, next?_counted hk]
    exact Option.bind_congr fun x _ => ih

end Registry

/-- An array of a document, of as many items as an integer can count. -/
def Object.isArray : Object → Bool
  | json (.list items) => decide ((items.length : Int) ≤ Value.maxInt)
  | _ => false

theorem mapIdx_eq_filterMap {α β : Type} (f : Nat → α → β) (items : List α) :
    items.mapIdx f = (List.range items.length).filterMap fun i => items[i]?.map (f i) := by
  induction items using List.reverseRecOn with
  | nil => rfl
  | append_singleton items x ih =>
    have hbefore : (List.range items.length).filterMap (fun i => (items ++ [x])[i]?.map (f i)) =
        (List.range items.length).filterMap fun i => items[i]?.map (f i) :=
      List.filterMap_congr fun i hi => by rw [List.getElem?_append_left (List.mem_range.1 hi)]
    rw [List.mapIdx_concat, List.length_append, List.length_singleton, List.range_succ, List.filterMap_append,
      hbefore, ← ih]
    simp

namespace Registry
variable {allowed : Bool} {o x : Object} {p p' : Path} {e e' : Expansion}

theorem count?_array {items : List Json} (h : (items.length : Int) ≤ Value.maxInt) :
    standard.count? (.json (.list items)) .size = some items.length := by
  have hread : standard.read? (.json (.list items)) .size = some (Value.ofNat items.length) := rfl
  rw [count?, hread, Value.ofNat, if_pos h]
  rfl

theorem found?_array (depth? : Option Nat) (q : Quantifier) (h : x.isArray = true) :
    standard.found? depth? x (.variadic q .size) = standard.found? depth? x (.each q) := by
  unfold Object.isArray at h
  split at h
  next items =>
    rw [found?, found?, count?_array (of_decide_eq_true h)]
    show some (childrenBelow (.json (.list items)) items.length) = some (((items.mapIdx _).map _).map _)
    rw [mapIdx_eq_filterMap, List.map_filterMap, List.map_filterMap, childrenBelow]
    simp only [Object.size?, Json.size?, Option.getD_some, Nat.min_self, Object.child?, Json.child?, Option.map_map]
    rfl
  next => cases h

end Registry

/-- Whether the one runs through the elements and the other one counts positions. -/
def Expansion.isExchanged : Expansion → Expansion → Bool
  | each _, variadic .. => true
  | _, _ => false

namespace Registry
variable {allowed : Bool} {r : Registry} {o x : Object} {p p' : Path} {e e' : Expansion}

/-- What an expansion leads to is the same if the elements are counted, where they are those of an
array. -/
theorem found?_counted (h : Key.Counted allowed (.expand e) (.expand e'))
    (harray : e.isExchanged e' = true → x.isArray = true) (depth? : Option Nat) :
    standard.found? depth? x e = standard.found? depth? x e' := by
  cases h with
  | same => rfl
  | size q => exact (found?_array depth? q (harray rfl)).symm
  | children q depth? h =>
    cases h with
    | same => rfl
    | size | children => rw [found?, found?, Object.nodes_expand, Object.nodes_expand]

/-- The objects to which the question whether the first path leads anywhere applies a key that the
second path counts. -/
def applied (r : Registry) : Path → Path → Object → List Object
  | .expand e :: p, .expand e' :: p', o =>
    (if e.isExchanged e' then [o] else []) ++
      (upTo (fun x => r.reaches x.2 p) (r.visited o e)).flatMap fun x => applied r p p' x.2
  | k :: p, _ :: p', o => ((r.next? o k).map (applied r p p')).getD []
  | _, _, _ => []

theorem applied_key {k : Key} (hk : k.isExpansion = false) (k' : Key) :
    r.applied (k :: p) (k' :: p') o = ((r.next? o k).map (r.applied p p')).getD [] := by
  cases k with
  | expand => cases hk
  | name | index | property => rfl

theorem applied_self (r : Registry) (p : Path) (o : Object) : r.applied p p o = [] := by
  induction p generalizing o with
  | nil => rfl
  | cons k p ih =>
    by_cases hk : k.isExpansion = true
    · cases k with
      | expand e =>
        have hself : e.isExchanged e = false := by cases e <;> rfl
        rw [applied, hself, List.flatMap_eq_nil_iff.2 fun x _ => ih x.2]
        rfl
      | name | index | property => cases hk
    · rw [applied_key (Bool.not_eq_true _ ▸ hk)]
      cases r.next? o k with
      | none => rfl
      | some x => exact ih x

/-- A path asks the same if keys of it count, where these are applied to arrays. -/
theorem reaches_counted (h : p.Counted allowed p') (harrays : ∀ x ∈ standard.applied p p' o, x.isArray = true) :
    standard.reaches o p = standard.reaches o p' := by
  induction h generalizing o with
  | nil => rfl
  | @cons k k' p p' hk hp ih =>
    by_cases hexpands : k.isExpansion = true
    · cases k with
      | name | index | property => cases hexpands
      | expand e =>
        obtain ⟨e', rfl, -⟩ := hk.exists_expansion
        rw [applied, List.forall_mem_append] at harrays
        have hvisited : standard.visited o e = standard.visited o e' := by
          rw [visited_eq, visited_eq, found?_counted hk fun hexchanged => harrays.1 o (by simp [hexchanged])]
        rw [reaches_expand, reaches_expand, ← hvisited]
        exact any_congr_upTo fun x hx => ih fun y hy => harrays.2 y (List.mem_flatMap_of_mem hx hy)
    · rw [Bool.not_eq_true] at hexpands
      have hsame := hk.eq_of_isExpansion hexpands
      subst hsame
      rw [applied_key hexpands] at harrays
      rw [reaches_key hexpands, reaches_key hexpands]
      cases hnext : standard.next? o k with
      | none => rfl
      | some x => exact ih (by rwa [hnext] at harrays)

end Registry

namespace Cursor
variable {allowed : Bool} {r : Registry} {cur : Cursor} {m m' : Member} {p p' : Path}

theorem sees?_counted (h : p.Counted allowed p') : cur.sees? r p = cur.sees? r p' := by
  rw [sees?, sees?, remaining?, remaining?, h.length_eq]
  split
  · exact Registry.at?_counted (h.drop _)
  · rfl

/-- The objects to which the question whether the first member exists applies a key that the second
member counts. -/
def applied (cur : Cursor) (r : Registry) (m m' : Member) : List Object :=
  r.applied (m.path.drop cur.consumed) (m'.path.drop cur.consumed) cur.origin.object

theorem has_counted (h : m.path.Counted allowed m'.path)
    (harrays : ∀ x ∈ cur.applied .standard m m', x.isArray = true) (p? : Option Property) :
    cur.has .standard m p? = cur.has .standard m' p? := by
  cases p? with
  | some q => rw [has_some, has_some, sees?_counted h]
  | none =>
    rw [has_none, has_none, remaining?, remaining?, h.length_eq]
    split
    · exact Registry.reaches_counted (h.drop _) harrays
    · rfl

end Cursor

end Conform
