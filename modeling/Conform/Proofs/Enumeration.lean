import Conform.Proofs.Expansions
import Conform.Proofs.Heights

/-!
# What a visit enumerates

`Registry.Addresses` lists what an expansion leads to: the elements of a container, the nodes of a
tree in pre-order (`Object.Preorder`) or the children at the positions below a count. A visit comes to
just these, in this order, until the visitor ends it, and the path that it shows leads to what it
shows (`Registry.visit_enumerates`).
-/

namespace Conform

/-! ### Visitors -/

section Visitors
variable {α σ : Type}

/-- The visitor is called on the items one after the other, each time with what the call before has
left. A call that ends the visit is the last one. -/
inductive Called (visitor : α → σ → ForInStep σ) : List α → σ → ForInStep σ → Prop
  | finished (s : σ) : Called visitor [] s (.yield s)
  | stopped {x : α} {s s' : σ} (h : visitor x s = .done s') : Called visitor [x] s (.done s')
  | next {x : α} {xs : List α} {s s' : σ} {step : ForInStep σ} (h : visitor x s = .yield s')
    (hxs : Called visitor xs s' step) : Called visitor (x :: xs) s step

/-- A loop calls its visitor on the items in order, and on all of them unless a call ends it. -/
theorem exists_called (visitor : α → σ → ForInStep σ) (xs : List α) (s : σ) :
    ∃ calls step, visitEach (m := Id) visitor xs s = step ∧ Called visitor calls s step ∧ calls <+: xs ∧
      ∀ s', step = .yield s' → calls = xs := by
  induction xs generalizing s with
  | nil => exact ⟨[], .yield s, rfl, .finished s, List.prefix_rfl, fun _ _ => rfl⟩
  | cons x xs ih =>
    rw [visitEach_cons]
    cases h : visitor x s with
    | done s' => exact ⟨[x], .done s', rfl, .stopped h, List.prefix_append [x] xs, fun _ hs => by cases hs⟩
    | yield s' =>
      obtain ⟨calls, step, hstep, hcalled, hextends, hall⟩ := ih s'
      exact ⟨x :: calls, step, hstep, .next h hcalled, List.cons_prefix_cons.2 ⟨rfl, hextends⟩,
        fun s'' hs => congrArg (x :: ·) (hall s'' hs)⟩

end Visitors

/-! ### Trees -/

namespace Object

/-- `x` is a node of the tree that goes down from an object through `children`, `depth` levels below
its root; the path leads to it. -/
inductive Node (children : Key) : Object → Nat → Path → Object → Prop
  | root (o : Object) : Node children o 0 [] o
  | child {o c x : Object} {es : List (Key × Object)} {e : Key × Object} {depth : Nat} {path : Path}
    (hc : o.child? children = some c) (hes : c.elements? = some es) (he : e ∈ es)
    (h : Node children e.2 depth path x) : Node children o (depth + 1) (children :: e.1 :: path) x

mutual

/-- The list holds an object and, parents first, what is below it in a tree, down to `depth?` levels
if that is given. Each is listed with the path to it, where `path` leads to the object. -/
inductive Preorder (children : Key) : Option Nat → Path → Object → List (Path × Object) → Prop
  | last (path : Path) (o : Object) : Preorder children (some 0) path o [(path, o)]
  | node {depth? : Option Nat} {path : Path} {o : Object} {found : List (Path × Object)} (hdepth : depth? ≠ some 0)
    (h : PreorderBelow children (depth?.map (· - 1)) path (o.offspring children) found) :
    Preorder children depth? path o ((path, o) :: found)

/-- The lists of the children, one behind the other. -/
inductive PreorderBelow (children : Key) :
    Option Nat → Path → List (Key × Object) → List (Path × Object) → Prop
  | nil (depth? : Option Nat) (path : Path) : PreorderBelow children depth? path [] []
  | cons {depth? : Option Nat} {path : Path} {e : Key × Object} {es : List (Key × Object)}
    {found rest : List (Path × Object)} (h : Preorder children depth? (path ++ [children, e.1]) e.2 found)
    (hes : PreorderBelow children depth? path es rest) : PreorderBelow children depth? path (e :: es) (found ++ rest)

end

variable {children : Key} {o x : Object} {depth levels : Nat} {path p q s : Path} {e : Key × Object}

theorem nodup_offspring (ho : o.WellFormed) : ((o.offspring children).map Prod.fst).Nodup := by
  unfold offspring
  cases hc : o.child? children with
  | none => exact List.nodup_nil
  | some c =>
    cases hes : c.elements? with
    | none => simp [hes]
    | some es => simpa [hes] using nodup_keys_of_elements? (ho.child hc) hes

theorem height_lt_of_mem_offspring (he : e ∈ o.offspring children) : e.2.height < o.height := by
  obtain ⟨c, es, hc, hes, he⟩ := mem_offspring_iff.1 he
  exact Nat.lt_trans (height_lt_of_mem_elements? hes he) (height_lt_of_child? hc)

namespace Node

/-- A level takes two keys, that of the list of children and that of the child. -/
theorem length_path (h : Node children o depth path x) : path.length = 2 * depth := by
  induction h with
  | root => rfl
  | child _ _ _ _ ih => simp only [List.length_cons, ih]; omega

theorem depth_le_height (h : Node children o depth path x) : depth ≤ o.height := by
  induction h with
  | root => exact Nat.zero_le _
  | child hc hes he _ ih =>
    have := height_lt_of_mem_offspring (mem_offspring_iff.2 ⟨_, _, hc, hes, he⟩)
    omega

end Node

/-! #### The nodes that are visited -/

theorem mem_nodes_iff : (q, x) ∈ o.nodes children levels p ↔
    ∃ depth ≤ levels, ∃ path, q = p ++ path ∧ Node children o depth path x := by
  induction levels generalizing o p with
  | zero =>
    rw [nodes, List.mem_singleton]
    constructor
    · intro h
      cases h
      exact ⟨0, Nat.le_refl 0, [], (List.append_nil _).symm, .root _⟩
    · rintro ⟨depth, hdepth, path, rfl, h⟩
      cases h with
      | root => rw [List.append_nil]
      | child => cases hdepth
  | succ levels ih =>
    rw [nodes, List.mem_cons, List.mem_flatMap]
    constructor
    · rintro (h | ⟨e, he, h⟩)
      · cases h
        exact ⟨0, Nat.zero_le _, [], (List.append_nil _).symm, .root _⟩
      · obtain ⟨c, es, hc, hes, he⟩ := mem_offspring_iff.1 he
        obtain ⟨depth, hdepth, path, rfl, hnode⟩ := ih.1 h
        exact ⟨depth + 1, Nat.succ_le_succ hdepth, children :: e.1 :: path, by simp, .child hc hes he hnode⟩
    · rintro ⟨depth, hdepth, path, rfl, h⟩
      cases h with
      | root => exact .inl (by rw [List.append_nil])
      | @child _ c _ es e depth path hc hes he h =>
        exact .inr ⟨e, mem_offspring_iff.2 ⟨c, es, hc, hes, he⟩,
          ih.2 ⟨depth, Nat.le_of_succ_le_succ hdepth, path, by simp, h⟩⟩

theorem prefix_of_mem_nodes (h : (q, x) ∈ o.nodes children levels p) : p <+: q := by
  obtain ⟨depth, -, path, rfl, -⟩ := mem_nodes_iff.1 h
  exact List.prefix_append p path

theorem preorderBelow_flatMap {depth? : Option Nat} {es : List (Key × Object)}
    {found : Key × Object → List (Path × Object)}
    (h : ∀ e ∈ es, Preorder children depth? (path ++ [children, e.1]) e.2 (found e)) :
    PreorderBelow children depth? path es (es.flatMap found) := by
  induction es with
  | nil => exact .nil depth? path
  | cons e es ih =>
    obtain ⟨he, hes⟩ := List.forall_mem_cons.1 h
    exact .cons he (ih hes)

theorem preorder_nodes (children : Key) (levels : Nat) (path : Path) (o : Object) :
    Preorder children (some levels) path o (o.nodes children levels path) := by
  induction levels generalizing path o with
  | zero => exact .last path o
  | succ levels ih => exact .node (by simp) (preorderBelow_flatMap fun e _ => ih _ e.2)

theorem preorder_nodes_of_height (path : Path) (h : o.height ≤ levels) :
    Preorder children none path o (o.nodes children levels path) := by
  induction levels generalizing path o with
  | zero =>
    have hnone : o.offspring children = [] := List.eq_nil_iff_forall_not_mem.2 fun e he => by
      have := height_lt_of_mem_offspring he
      omega
    exact .node nofun (hnone ▸ .nil none path)
  | succ levels ih =>
    refine .node nofun (preorderBelow_flatMap fun e he => ih _ ?_)
    have := height_lt_of_mem_offspring he
    omega

/-- The paths in a tree are told apart by the keys of the children. -/
theorem nodup_nodes (ho : o.WellFormed) (levels : Nat) (p : Path) :
    ((o.nodes children levels p).map Prod.fst).Nodup := by
  induction levels generalizing o p with
  | zero => exact List.nodup_singleton p
  | succ levels ih =>
    have hextends : ∀ {e : Key × Object} {q}, q ∈ (e.2.nodes children levels (p ++ [children, e.1])).map Prod.fst →
        p ++ [children, e.1] <+: q := by
      intro e q hq
      obtain ⟨⟨q, x⟩, hx, rfl⟩ := List.mem_map.1 hq
      exact prefix_of_mem_nodes hx
    rw [nodes, List.map_cons, List.map_flatMap, List.nodup_cons, List.nodup_flatMap]
    refine ⟨fun hp => ?_, fun e he => ?_, ?_⟩
    · obtain ⟨e, -, hp⟩ := List.mem_flatMap.1 hp
      have := (hextends hp).length_le
      rw [List.length_append] at this
      exact absurd this (Nat.not_le.2 (Nat.lt_add_of_pos_right Nat.two_pos))
    · exact ih ((Registry.Leads.offspring (r := .empty) ho he).wellFormed ho) _
    · refine (List.pairwise_map.1 (nodup_offspring ho)).imp fun {e e'} hne q hq hq' => hne ?_
      have heq := (List.prefix_of_prefix_length_le (hextends hq) (hextends hq') (by simp)).eq_of_length (by simp)
      simpa using heq

end Object

/-! ### All expansions -/

namespace Registry

/-- What an expansion leads to from `o`, in order, each with the path to it. -/
inductive Addresses (r : Registry) (depth? : Option Nat) (o : Object) : Expansion → List (Path × Object) → Prop
  | each (q : Quantifier) {es : List (Key × Object)} (h : o.elements? = some es) :
    Addresses r depth? o (.each q) (es.map fun e => ([e.1], e.2))
  | tree (q : Quantifier) (children : Key) (own? : Option Nat) {found : List (Path × Object)}
    (h : Object.Preorder children (own?.or depth?) [] o found) : Addresses r depth? o (.tree q children own?) found
  | variadic (q : Quantifier) (count : Property) {n : Nat} (h : r.read? o count = some (.int n)) :
    Addresses r depth? o (.variadic q count)
      ((List.range n).filterMap fun i => (o.child? (.index i)).map fun x => ([.index i], x))

/-- There is nothing to expand: no container, or no number of positions. -/
def Unexpandable (r : Registry) (o : Object) : Expansion → Prop
  | .each _ => o.elements? = none
  | .tree .. => False
  | .variadic _ count => ∀ n : Nat, r.read? o count ≠ some (.int n)

variable {r : Registry} {depth? : Option Nat} {o x : Object} {e : Expansion} {n : Nat} {p : Path}
  {found : List (Path × Object)}

theorem count?_eq_some_iff {count : Property} : r.count? o count = some n ↔ r.read? o count = some (.int n) := by
  unfold count?
  cases r.read? o count with
  | none => simp
  | some v =>
    cases v with
    | int i =>
      cases i with
      | ofNat k =>
        show some k = some n ↔ some (Value.int k) = some (Value.int n)
        rw [Option.some.injEq, Option.some.injEq, Value.int.injEq, Int.ofNat_inj]
      | negSucc k => simp [Value.int?, Int.toNat?]
    | null | bool | float | str | list | interval => simp [Value.int?]

theorem childrenBelow_eq (o : Object) (n : Nat) : childrenBelow o n =
    (List.range n).filterMap fun i => (o.child? (.index i)).map fun x => ([.index i], x) := by
  have hbeyond : ∀ i, min n (o.size?.getD 0) + i < n → o.child? (.index (min n (o.size?.getD 0) + i)) = none := by
    intro i hi
    by_contra hchild
    obtain ⟨x, hx⟩ := Option.ne_none_iff_exists'.1 hchild
    have := Object.lt_size?_of_child? hx
    omega
  obtain ⟨d, hd⟩ := Nat.exists_eq_add_of_le (Nat.min_le_left n (o.size?.getD 0))
  have hnone : ((List.range d).map (min n (o.size?.getD 0) + ·)).filterMap
      (fun i => (o.child? (.index i)).map fun x => (([.index i], x) : Path × Object)) = [] := by
    refine List.filterMap_eq_nil_iff.2 fun i hi => ?_
    obtain ⟨j, hj, rfl⟩ := List.mem_map.1 hi
    rw [hbeyond j (by have := List.mem_range.1 hj; omega), Option.map_none]
  rw [childrenBelow]
  conv => rhs; rw [hd, List.range_add, List.filterMap_append, hnone, List.append_nil]

theorem found?_eq_none_iff : r.found? depth? o e = none ↔ r.Unexpandable o e := by
  cases e with
  | each q => exact Option.map_eq_none_iff
  | tree q children own? => exact ⟨nofun, False.elim⟩
  | variadic q count =>
    rw [found?, Option.map_eq_none_iff, Option.eq_none_iff_forall_ne_some]
    exact forall_congr' fun n => not_congr count?_eq_some_iff

theorem addresses_of_found? (hf : r.found? depth? o e = some found) : r.Addresses depth? o e found := by
  cases e with
  | each q =>
    obtain ⟨es, hes, rfl⟩ := Option.map_eq_some_iff.1 hf
    exact .each q hes
  | tree q children own? =>
    cases hf
    refine .tree q children own? ?_
    cases own?.or depth? with
    | none => exact Object.preorder_nodes_of_height [] (Nat.le_refl _)
    | some bound => exact Object.preorder_nodes children bound [] o
  | variadic q count =>
    obtain ⟨n, hn, rfl⟩ := Option.map_eq_some_iff.1 hf
    rw [childrenBelow_eq]
    exact .variadic q count (count?_eq_some_iff.1 hn)

theorem nodup_found? (ho : o.WellFormed) (hf : r.found? depth? o e = some found) : (found.map Prod.fst).Nodup := by
  cases e with
  | each q =>
    obtain ⟨es, hes, rfl⟩ := Option.map_eq_some_iff.1 hf
    have hnodup := (Object.nodup_keys_of_elements? ho hes).map fun (k l : Key) (h : [k] = [l]) => (List.cons.inj h).1
    rwa [List.map_map] at hnodup ⊢
  | tree q children own? =>
    cases hf
    exact Object.nodup_nodes ho _ []
  | variadic q count =>
    obtain ⟨n, -, rfl⟩ := Option.map_eq_some_iff.1 hf
    refine List.pairwise_map.2 (List.pairwise_filterMap.2 (List.nodup_range.imp fun {i j} hne x hx y hy heq => hne ?_))
    obtain ⟨c, -, rfl⟩ := Option.map_eq_some_iff.1 hx
    obtain ⟨d, -, rfl⟩ := Option.map_eq_some_iff.1 hy
    exact Key.index.inj (List.cons.inj heq).1

theorem mem_found?_tree_iff {q : Quantifier} {children : Key} {own? : Option Nat}
    (hf : r.found? depth? o (.tree q children own?) = some found) : (p, x) ∈ found ↔
      ∃ depth, o.Node children depth p x ∧ (∀ bound, own?.or depth? = some bound → depth ≤ bound) ∧
        p.length = 2 * depth := by
  cases hf
  rw [Object.mem_nodes_iff]
  constructor
  · rintro ⟨depth, hdepth, path, rfl, h⟩
    refine ⟨depth, h, fun bound hbound => ?_, h.length_path⟩
    rwa [hbound] at hdepth
  · rintro ⟨depth, h, hbound, -⟩
    refine ⟨depth, ?_, p, rfl, h⟩
    cases hlevels : own?.or depth? with
    | none => exact h.depth_le_height
    | some bound => exact hbound bound hlevels

/-- An object cannot be visited if it is no container or has no number of positions. Otherwise the
visitor is called on what the expansion addresses, in order, up to the call that ends the visit if
there is one. Each path that it is shown leads to what it is shown, no path is shown twice, and the
paths in a tree are twice as long as the node is deep. -/
theorem visit_enumerates (r : Registry) (depth? : Option Nat) (o : Object) (e : Expansion) :
    (∀ {m : Type → Type} [Monad m] [LawfulMonad m] {σ : Type} (f : Path × Object → σ → m (ForInStep σ)) (s : σ),
      r.visit depth? o f s e = none ↔ r.Unexpandable o e) ∧
    (¬ r.Unexpandable o e → ∃ found, r.Addresses depth? o e found ∧
      (∀ {m : Type → Type} [Monad m] [LawfulMonad m] {σ : Type} (f : Path × Object → σ → m (ForInStep σ)) (s : σ),
        r.visit depth? o f s e = some (visitEach f found s)) ∧
      (∀ {σ : Type} (visitor : Path × Object → σ → ForInStep σ) (s : σ), ∃ calls step,
        r.visit (m := Id) depth? o visitor s e = some step ∧ Called visitor calls s step ∧ calls <+: found ∧
          ∀ s', step = .yield s' → calls = found) ∧
      (o.WellFormed → (found.map Prod.fst).Nodup ∧ ∀ x ∈ found, r.find? o x.1 = some (.stored x.2)) ∧
      ∀ q children own?, e = .tree q children own? → ∀ path x, (path, x) ∈ found ↔
        ∃ depth, o.Node children depth path x ∧ (∀ bound, own?.or depth? = some bound → depth ≤ bound) ∧
          path.length = 2 * depth) := by
  refine ⟨fun f s => ?_, fun hexpands => ?_⟩
  · rw [visit_eq, Option.map_eq_none_iff]
    exact found?_eq_none_iff
  · obtain ⟨found, hf⟩ := Option.ne_none_iff_exists'.1 (mt found?_eq_none_iff.1 hexpands)
    refine ⟨found, addresses_of_found? hf, fun f s => ?_, fun visitor s => ?_, fun ho => ⟨nodup_found? ho hf, ?_⟩, ?_⟩
    · rw [visit_eq, hf, Option.map_some]
    · obtain ⟨calls, step, hstep, hcalls⟩ := exists_called visitor found s
      refine ⟨calls, step, ?_, hcalls⟩
      rw [visit_eq, hf, Option.map_some, hstep]
    · rintro ⟨path, x⟩ hx
      have hleads := leads_of_mem_found? ho hf hx
      rw [find?_literal r hleads.literal, hleads.at_eq, Option.map_some]
    · rintro q children own? rfl path x
      exact mem_found?_tree_iff hf

theorem visit_enumerates_family :
    let family : Object := .json (.object [("kids", .list [.object [("kids", .list [.object []])], .object []])])
    let e := Expansion.tree .all (.name "kids") none
    let path : Path := [.name "kids", .index 0, .name "kids", .index 0]
    ¬ Registry.standard.Unexpandable family e ∧ family.WellFormed ∧
      ∃ found, Registry.standard.Addresses none family e found ∧ (found.map Prod.fst).Nodup ∧
        (path, .json (.object [])) ∈ found ∧
        Registry.standard.find? family path = some (.stored (.json (.object []))) := by
  intro family e path
  have hexpands : ¬ Registry.standard.Unexpandable family e := id
  have hwell : family.WellFormed := by decide
  obtain ⟨found, haddresses, -, -, hfound, htree⟩ := (visit_enumerates .standard none family e).2 hexpands
  obtain ⟨hnodup, hfind⟩ := hfound hwell
  have hnode : family.Node (.name "kids") 2 path (.json (.object [])) :=
    .child (e := (.index 0, .json (.object [("kids", .list [.object []])]))) rfl rfl (List.mem_cons_self ..)
      (.child (e := (.index 0, .json (.object []))) rfl rfl (List.mem_cons_self ..) (.root _))
  have hmem : (path, Object.json (.object [])) ∈ found :=
    (htree _ _ _ rfl _ _).2 ⟨2, hnode, nofun, rfl⟩
  exact ⟨hexpands, hwell, found, haddresses, hnodup, hmem, hfind _ hmem⟩

end Registry

end Conform
