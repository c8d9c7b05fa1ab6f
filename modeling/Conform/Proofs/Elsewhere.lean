import Conform.Proofs.Document
import Conform.Proofs.Elements
import Conform.Proofs.Heights

/-!
# Documents that are the same elsewhere

`Json.SameBut p` relates documents that have something at `p` and differ in nothing else. A path
that does not lead through `p` leads to the same object in both, or to containers that look alike
(`SameBut.at?_cases`), and an expansion from there leads to the same places unless it steps past `p`
(`SameBut.found?_places`).
-/

namespace Conform

/-! ### Trees in documents -/

namespace Json
variable {j v : Json} {k : Key}

theorem exists_of_mem_offspring {children : Key} {e : Key × Object} (hj : j.WellFormed)
    (he : e ∈ (Object.json j).offspring children) :
    ∃ c d, j.child? children = some c ∧ c.child? e.1 = some d ∧ e.2 = .json d := by
  unfold Object.offspring at he
  cases hc : j.child? children with
  | none => simp [Object.child?, hc] at he
  | some c =>
    cases hes : c.elements? with
    | none => simp [Object.child?, Object.elements?, hc, hes] at he
    | some es =>
      simp only [Object.child?, Object.elements?, hc, hes, Option.map_some, Option.bind_some, Option.getD_some] at he
      obtain ⟨⟨k, d⟩, hd, rfl⟩ := List.mem_map.1 he
      exact ⟨c, d, rfl, child?_of_mem_elements? (hj.child hc) hes hd, rfl⟩

theorem offspring_of_height {children : Key} (hj : j.WellFormed) (h : j.height = 0) :
    (Object.json j).offspring children = [] :=
  List.eq_nil_iff_forall_not_mem.2 fun e he => by
    obtain ⟨c, d, hc, -, -⟩ := exists_of_mem_offspring hj he
    have := height_lt_of_child? hc
    omega

theorem nodes_eq_of_height {children : Key} {levels levels' : Nat} {p : Path} (hj : j.WellFormed)
    (h : j.height ≤ levels) (h' : j.height ≤ levels') :
    (Object.json j).nodes children levels p = (Object.json j).nodes children levels' p := by
  induction levels generalizing j levels' p with
  | zero =>
    cases levels' with
    | zero => rfl
    | succ levels' => rw [Object.nodes, Object.nodes, offspring_of_height hj (Nat.le_zero.1 h), List.flatMap_nil]
  | succ levels ih =>
    cases levels' with
    | zero => rw [Object.nodes, Object.nodes, offspring_of_height hj (Nat.le_zero.1 h'), List.flatMap_nil]
    | succ levels' =>
      rw [Object.nodes, Object.nodes]
      refine congrArg _ (List.flatMap_congr fun e he => ?_)
      obtain ⟨c, d, hc, hd, heq⟩ := exists_of_mem_offspring hj he
      have hcj := height_lt_of_child? hc
      have hdc := height_lt_of_child? hd
      rw [heq]
      exact ih ((hj.child hc).child hd) (by omega) (by omega)

end Json

/-! ### What documents look like from outside -/

/-- Two objects that cannot be told apart without going into them. -/
structure Object.Looks (o o' : Object) : Prop where
  scalar : o.scalar? = o'.scalar?
  size : o.size? = o'.size?

namespace Object.Looks
variable {o o' : Object}

theorem refl (o : Object) : o.Looks o :=
  ⟨rfl, rfl⟩

theorem read? (h : o.Looks o') (p : Property) : Registry.standard.read? o p = Registry.standard.read? o' p := by
  have hextent : o.extent? = o'.extent? := by rw [extent?, extent?, h.size, h.scalar]
  simp only [Registry.read?, Registry.standard, Registry.getter?_register]
  by_cases hempty : p.name = "empty"
  · simp [hempty, Getter.empty, hextent]
  · by_cases hlength : p.name = "length"
    · simp [hlength, Getter.length, hextent, h.scalar]
    · by_cases hsize : p.name = "size"
      · simp [hsize, Getter.size, hextent]
      · by_cases hvalue : p.name = "value"
        · simp [hvalue, Getter.value, h.scalar]
        · simp [hempty, hlength, hsize, hvalue, Registry.empty, Registry.getter?, Fields.get?]

theorem scalarOf? (h : o.Looks o') (p? : Option Property) :
    Registry.standard.scalarOf? o p? = Registry.standard.scalarOf? o' p? := by
  cases p? with
  | none => exact h.scalar
  | some p => exact h.read? p

end Object.Looks

namespace Json

theorem size?_eq_keys (j : Json) : j.size? = (Object.json j).elementKeys?.map List.length := by
  cases j <;> simp [size?, Object.elementKeys?, Object.elements?, elements?]

/-- The documents have something at a path and are the same but for that. -/
inductive SameBut : Path → Json → Json → Prop
  | here (j j' : Json) : SameBut [] j j'
  | under {k : Key} {p : Path} {j j' v w : Json} (hchild : j.child? k = some v) (hset : Sets w k j j')
    (h : SameBut p v w) : SameBut (k :: p) j j'

namespace SameBut
variable {r : Registry} {other j j' : Json} {k l : Key} {p q s : Path}

theorem of_put (hput : put other p j = (j', true)) (hat : (r.at? (.json j) p).isSome) : SameBut p j j' := by
  induction p generalizing j j' with
  | nil => exact .here j j'
  | cons k p ih =>
    obtain ⟨w, hw, hset⟩ := put_cons hput
    obtain ⟨x, hx⟩ := Option.isSome_iff_exists.1 hat
    rw [r.at?_json_cons j hset.isLiteral] at hx
    obtain ⟨v, hv, hx⟩ := Option.bind_eq_some_iff.1 hx
    rw [hv] at hw
    exact .under hv hset (ih hw (Option.isSome_of_eq_some hx))

theorem elementKeys? (h : SameBut (k :: p) j j') (hj : j.WellFormed) :
    (Object.json j).elementKeys? = (Object.json j').elementKeys? := by
  cases h with
  | under hchild hset _ => exact (hset.elementKeys? hj (by rw [hchild]; rfl)).symm

theorem looks (h : SameBut (k :: p) j j') (hj : j.WellFormed) : (Object.json j).Looks (.json j') := by
  refine ⟨?_, ?_⟩
  · cases h with
    | under hchild hset _ =>
      cases hset with
      | fresh => cases hchild
      | field | item => rfl
  · show j.size? = j'.size?
    rw [size?_eq_keys, size?_eq_keys, h.elementKeys? hj]

theorem isSome_child? (h : SameBut (k :: p) j j') (l : Key) : (j.child? l).isSome = (j'.child? l).isSome := by
  cases h with
  | under hchild hset _ =>
    by_cases hl : l = k
    · rw [hl, hchild, hset.child?_self]; rfl
    · rw [hset.child?_of_ne hl]

/-- Where a path does not lead through the place, both documents have the same there, or the way to
the place goes on from there. -/
theorem at?_cases (h : SameBut p j j') (hj : j.WellFormed) (hq : ¬ p <+: q) :
    Registry.standard.at? (.json j) q = Registry.standard.at? (.json j') q ∨
      ∃ k s v w, p = q ++ k :: s ∧ SameBut (k :: s) v w ∧ v.WellFormed ∧
        Registry.standard.at? (.json j) q = some (.json v) ∧ Registry.standard.at? (.json j') q = some (.json w) := by
  induction h generalizing q with
  | here => exact absurd List.nil_prefix hq
  | @under k p j j' v w hchild hset h ih =>
    have hunder := SameBut.under hchild hset h
    cases q with
    | nil => exact .inr ⟨k, p, j, j', rfl, hunder, hj, rfl, rfl⟩
    | cons l q =>
      cases hl : l.isLiteral with
      | false =>
        refine .inl ?_
        rw [Registry.at?_cons, Registry.at?_cons]
        cases l with
        | expand => rfl
        | property x => rw [Registry.next?, Registry.next?, (hunder.looks hj).read? x]
        | name | index => cases hl
      | true =>
        rw [Registry.at?_json_cons _ _ hl, Registry.at?_json_cons _ _ hl]
        by_cases hlk : l = k
        · subst hlk
          rw [hchild, hset.child?_self]
          have hpq : ¬ p <+: q := fun hpre => hq (List.cons_prefix_cons.2 ⟨rfl, hpre⟩)
          rcases ih (hj.child hchild) hpq with heq | ⟨k, s, v', w', rfl, hrest⟩
          · exact .inl heq
          · exact .inr ⟨k, s, v', w', rfl, hrest⟩
        · rw [hset.child?_of_ne hlk]
          exact .inl rfl

end SameBut

end Json

/-! ### What expansions lead to -/

theorem flatMap_eq_of_forall₂ {α β γ : Type} {f : α → List γ} {g : β → List γ} {xs : List α} {ys : List β}
    (h : List.Forall₂ (fun x y => f x = g y) xs ys) : xs.flatMap f = ys.flatMap g := by
  induction h with
  | nil => rfl
  | cons hxy _ ih => rw [List.flatMap_cons, List.flatMap_cons, hxy, ih]

namespace Object
variable {o : Object} {children : Key} {levels : Nat} {p : Path}

theorem self_mem_nodes (children : Key) (levels : Nat) (p : Path) (o : Object) :
    (p, o) ∈ o.nodes children levels p := by
  cases levels <;> exact List.mem_cons_self ..

theorem keys_offspring (o : Object) (children : Key) :
    (o.offspring children).map Prod.fst = ((o.child? children).bind elementKeys?).getD [] := by
  unfold offspring elementKeys?
  cases o.child? children with
  | none => rfl
  | some c => cases hes : c.elements? <;> simp [hes]

theorem mem_nodes_succ {e : Key × Object} {x : Path × Object} (he : e ∈ o.offspring children)
    (hx : x ∈ e.2.nodes children levels (p ++ [children, e.1])) : x ∈ o.nodes children (levels + 1) p :=
  List.mem_cons_of_mem _ (List.mem_flatMap.2 ⟨e, he, hx⟩)

/-- None of the nodes of a tree lies strictly inside `p ++ s`. -/
def EndsAt (o : Object) (children : Key) (levels : Nat) (p s : Path) : Prop :=
  ∀ x ∈ o.nodes children levels p, p ++ s <+: x.1 → x.1 = p ++ s

theorem EndsAt.of_mem {s : Path} {e : Key × Object} (h : o.EndsAt children (levels + 1) p (children :: e.1 :: s))
    (he : e ∈ o.offspring children) : e.2.EndsAt children levels (p ++ [children, e.1]) s := fun x hx hpre => by
  have hsplit : p ++ children :: e.1 :: s = p ++ [children, e.1] ++ s := by simp
  rw [← hsplit] at hpre ⊢
  exact h x (mem_nodes_succ he hx) hpre

theorem EndsAt.offspring {s : Path} (h : o.EndsAt children (levels + 1) p s) (hs : s <+: [children]) :
    o.offspring children = [] :=
  List.eq_nil_iff_forall_not_mem.2 fun e he => by
    have hlen := hs.length_le
    have hpre : p ++ s <+: p ++ [children, e.1] :=
      (List.prefix_append_right_inj p).2 (hs.trans ⟨[e.1], rfl⟩)
    have heq := h _ (mem_nodes_succ he (self_mem_nodes ..)) hpre
    have := congrArg List.length heq
    simp at this hlen
    omega

end Object

namespace Json.SameBut
variable {j j' v w : Json} {k : Key} {p s : Path} {children : Key} {levels : Nat}

/-- The elements of a child through which the way to the place goes on have the same keys, and all but
one of them are the same. -/
theorem forall₂_offspring (h : SameBut (children :: k :: s) j j') (hj : j.WellFormed) (hj' : j'.WellFormed) :
    List.Forall₂ (fun e e' => e.1 = e'.1 ∧ e ∈ (Object.json j).offspring children ∧
        e' ∈ (Object.json j').offspring children ∧
        (e.2 = e'.2 ∨
          ∃ d d', e.2 = .json d ∧ e'.2 = .json d' ∧ d.WellFormed ∧ d'.WellFormed ∧ e.1 = k ∧ SameBut s d d'))
      ((Object.json j).offspring children) ((Object.json j').offspring children) := by
  cases h with | @under _ _ _ _ v w hchild hset hvw =>
  cases hvw with | @under _ _ _ _ a b hchild' hset' hab =>
  have hkeys : ((Object.json j).offspring children).map Prod.fst =
      ((Object.json j').offspring children).map Prod.fst := by
    rw [Object.keys_offspring, Object.keys_offspring, Object.child?, Object.child?, hchild, hset.child?_self]
    exact congrArg (Option.getD · []) ((SameBut.under hchild' hset' hab).elementKeys? (hj.child hchild))
  refine (forall₂_of_map_eq hkeys).imp fun e e' hpair => ?_
  obtain ⟨heq, he, he'⟩ := hpair
  refine ⟨heq, he, he', ?_⟩
  obtain ⟨c, d, hc, hd, hed⟩ := exists_of_mem_offspring hj he
  obtain ⟨c', d', hc', hd', hed'⟩ := exists_of_mem_offspring hj' he'
  cases hchild.symm.trans hc
  cases hset.child?_self.symm.trans hc'
  rw [← heq] at hd'
  have hwd := (hj.child hc).child hd
  have hwd' := (hj'.child hc').child hd'
  by_cases hk : e.1 = k
  · rw [hk] at hd hd'
    cases hchild'.symm.trans hd
    cases hset'.child?_self.symm.trans hd'
    exact .inr ⟨_, _, hed, hed', hwd, hwd', hk, hab⟩
  · rw [hset'.child?_of_ne hk, hd] at hd'
    cases hd'
    exact .inl (hed.trans hed'.symm)

theorem nodes_places (h : SameBut s j j') (hj : j.WellFormed) (hj' : j'.WellFormed)
    (hends : (Object.json j).EndsAt children levels p s) (hends' : (Object.json j').EndsAt children levels p s) :
    ((Object.json j).nodes children levels p).map Prod.fst =
      ((Object.json j').nodes children levels p).map Prod.fst := by
  induction levels generalizing p s j j' with
  | zero => rfl
  | succ levels ih =>
    rw [Object.nodes, Object.nodes, List.map_cons, List.map_cons, List.map_flatMap, List.map_flatMap]
    refine congrArg _ ?_
    by_cases hs : s <+: [children]
    · rw [hends.offspring hs, hends'.offspring hs]
    cases s with
    | nil => exact absurd List.nil_prefix hs
    | cons l s =>
      by_cases hl : l = children
      · subst hl
        cases s with
        | nil => exact absurd List.prefix_rfl hs
        | cons k s =>
          refine flatMap_eq_of_forall₂ ((h.forall₂_offspring hj hj').imp ?_)
          rintro ⟨l', x⟩ ⟨-, x'⟩ ⟨rfl, he, he', rfl | ⟨d, d', rfl, rfl, hd, hd', rfl, hsame⟩⟩
          · rfl
          · exact ih hsame hd hd' (hends.of_mem he) (hends'.of_mem (e := (l', .json d')) he')
      · have hchild : (Object.json j).offspring children = (Object.json j').offspring children := by
          cases h with | under _ hset _ =>
          rw [Object.offspring, Object.offspring, Object.child?, Object.child?, hset.child?_of_ne (Ne.symm hl)]
        rw [hchild]

end Json.SameBut

namespace Registry
variable {r : Registry} {o : Object} {depth? : Option Nat}

theorem found?_each_places (r : Registry) (depth? : Option Nat) (o : Object) (q : Quantifier) :
    (r.found? depth? o (.each q)).map (·.map Prod.fst) = o.elementKeys?.map (·.map fun k => [k]) := by
  simp [found?, Object.elementKeys?, Function.comp_def]

theorem childrenBelow_places (o : Object) (n : Nat) : (childrenBelow o n).map Prod.fst =
    (List.range (min n (o.size?.getD 0))).filterMap fun i =>
      if (o.child? (.index i)).isSome then some [.index i] else none := by
  rw [childrenBelow, List.map_filterMap]
  refine List.filterMap_congr fun i _ => ?_
  cases o.child? (.index i) <;> rfl

end Registry

/-- From outside of `m`, an expansion leads to nothing strictly inside `m`. -/
def Terms.Stops (t : Terms) (o : Object) (m p : Path) (e : Expansion) : Prop :=
  m <+: p ∨ ∀ x ∈ (t.found? o p e).getD [], m <+: p ++ x.1 → p ++ x.1 = m

namespace Json.SameBut
variable {t : Terms} {j j' v w : Json} {k : Key} {m p s : Path} {e : Expansion}

theorem tree_places {depth? : Option Nat} {q : Quantifier} {children : Key} {own? : Option Nat} {r : Registry}
    (h : SameBut s v w) (hv : v.WellFormed) (hw : w.WellFormed)
    (hends : ∀ x ∈ (r.found? depth? (.json v) (.tree q children own?)).getD [], s <+: x.1 → x.1 = s)
    (hends' : ∀ x ∈ (r.found? depth? (.json w) (.tree q children own?)).getD [], s <+: x.1 → x.1 = s) :
    (r.found? depth? (.json v) (.tree q children own?)).map (·.map Prod.fst) =
      (r.found? depth? (.json w) (.tree q children own?)).map (·.map Prod.fst) := by
  rw [Registry.found?, Option.getD_some] at hends hends'
  rw [Registry.found?, Registry.found?, Option.map_some, Option.map_some]
  refine congrArg some ?_
  cases hlevels : own?.or depth? with
  | some levels =>
    rw [hlevels] at hends hends'
    exact h.nodes_places hv hw hends hends'
  | none =>
    -- the documents may differ in height, but levels below the lowest do not count
    rw [hlevels, Option.getD_none, Object.height] at hends hends'
    rw [nodes_eq_of_height hv (Nat.le_refl _) (Nat.le_max_left v.height w.height)] at hends
    rw [nodes_eq_of_height hw (Nat.le_refl _) (Nat.le_max_right v.height w.height)] at hends'
    rw [Option.getD_none, Option.getD_none, Object.height, Object.height,
      nodes_eq_of_height hv (Nat.le_refl _) (Nat.le_max_left v.height w.height),
      nodes_eq_of_height hw (Nat.le_refl _) (Nat.le_max_right v.height w.height)]
    exact h.nodes_places hv hw hends hends'

/-- Expansions that do not step into the place lead to the same places in both documents. -/
theorem found?_places (hstd : t.registry = .standard) (h : SameBut m j j') (hj : j.WellFormed) (hj' : j'.WellFormed)
    (hp : ¬ m <+: p) (hstops : t.Stops (.json j) m p e) (hstops' : t.Stops (.json j') m p e) :
    (t.found? (.json j) p e).map (·.map Prod.fst) = (t.found? (.json j') p e).map (·.map Prod.fst) := by
  have hends := hstops.resolve_left hp
  have hends' := hstops'.resolve_left hp
  unfold Terms.found? at hends hends' ⊢
  rw [hstd] at hends hends' ⊢
  rcases h.at?_cases hj hp with heq | ⟨k, s, v, w, rfl, hsame, hv, hat, hat'⟩
  · rw [heq]
  have hw : w.WellFormed := by
    have hwell : (Object.json w).WellFormed := Registry.wellFormed_at? (by rwa [Object.WellFormed]) hat'
    rwa [Object.WellFormed] at hwell
  have hlooks := hsame.looks hv
  rw [hat, hat', Option.bind_some, Option.bind_some]
  rw [hat, Option.bind_some] at hends
  rw [hat', Option.bind_some] at hends'
  cases e with
  | each q => rw [Registry.found?_each_places, Registry.found?_each_places, hsame.elementKeys? hv]
  | tree q children own? =>
    refine hsame.tree_places hv hw (fun x hx hpre => ?_) fun x hx hpre => ?_
    · exact List.append_cancel_left (hends x hx ((List.prefix_append_right_inj p).2 hpre))
    · exact List.append_cancel_left (hends' x hx ((List.prefix_append_right_inj p).2 hpre))
  | variadic q count =>
    have hcount : Registry.standard.count? (.json v) count = Registry.standard.count? (.json w) count := by
      rw [Registry.count?, Registry.count?, hlooks.read?]
    have hbelow : ∀ n, (Registry.childrenBelow (.json v) n).map Prod.fst =
        (Registry.childrenBelow (.json w) n).map Prod.fst := by
      intro n
      rw [Registry.childrenBelow_places, Registry.childrenBelow_places, hlooks.size]
      refine List.filterMap_congr fun i _ => ?_
      rw [Object.child?, Object.child?, Option.isSome_map, Option.isSome_map, hsame.isSome_child?]
    rw [Registry.found?, Registry.found?, Option.map_map, Option.map_map, hcount]
    exact Option.map_congr fun n _ => hbelow n

end Json.SameBut

end Conform
