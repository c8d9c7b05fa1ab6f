import Conform.Proofs.Elements

/-!
# Evaluation without cursors

`Rule.direct` evaluates a rule by following every path from the validated object. A pass through
no layers answers the same (`evaluate_bare`), but for one kind of leaf: asked of the first node of
a tree that begins at a property, whether the member exists is always denied.
-/

namespace Conform

/-! ### Reading from the root -/

def Connective.fold (k : Connective) (statuses : List Status) : Status :=
  match k with
  | .and => .allOf statuses
  | .or => .anyOf statuses
  | .not => (Status.allOf statuses).negate

def Registry.valueAt? (r : Registry) (o : Object) (p : Path) : Option Value :=
  (r.find? o p).bind Found.scalar?

namespace Terms

def compareAt (t : Terms) (o : Object) (p : Path) (op : Operator) (operand : Operand) : Status :=
  let right? := match operand with
    | .value v => some v
    | .member m => t.registry.valueAt? o m.path
    | .sample s => t.registry.valueAt? s p
  match t.registry.valueAt? o p, right? with
  | some a, some b => .ofOption (op.apply a b)
  | _, _ => .ignore

/-- The answer of `body` for the places that an expansion leads to from a place of `o`. -/
def expandAt (t : Terms) (o : Object) (e : Expansion) (body : Path → Status) (p : Path) : Status :=
  match (t.registry.find? o p).bind fun f => t.registry.found? t.settings.maxTreeDepth? f.object e with
  | none => .ignore
  | some found => e.quantifier.fold t.settings.allEmpty (found.map fun x => body (p ++ x.1))

/-- The answer of `body` at the end of a path from a place of `o`. -/
def alongAt (t : Terms) (o : Object) (body : Path → Status) : Path → Path → Status
  | [], p => body p
  | .expand e :: rest, p => t.expandAt o e (alongAt t o body rest) p
  | k :: rest, p => alongAt t o body rest (p ++ [k])

end Terms

namespace Rule

mutual

/-- The answer of a rule at a place of `o`, read from `o` by full paths. -/
def direct (t : Terms) (o : Object) : Rule → Path → Status
  | condition op operand, p => t.compareAt o p op operand
  | property q op operand, p => t.compareAt o (p ++ [.property q]) op operand
  | presence expected, p => .ofBool ((t.registry.find? o p).isSome == expected)
  | bind m body, p => t.alongAt o (direct t o body) m.path p
  | group k rules, p => k.fold (directs t o rules p)
  | elements e rules, p => t.expandAt o e (fun p => .allOf (directs t o rules p)) p
  | explain _ body, p => direct t o body p

def directs (t : Terms) (o : Object) : List Rule → Path → List Status
  | [], _ => []
  | r :: rs, p => direct t o r p :: directs t o rs p

end

end Rule

/-! ### Values at places -/

namespace Registry
variable {r : Registry} {o : Object} {p : Path}

theorem valueAt?_eq (r : Registry) (o : Object) (p : Path) :
    r.valueAt? o p = (r.at? o p).bind Object.scalar? := by
  rw [valueAt?, at?, Option.bind_map]
  exact Option.bind_congr fun f _ => by cases f <;> rfl

theorem valueAt?_property (r : Registry) (o : Object) (p : Path) (q : Property) :
    r.valueAt? o (p ++ [.property q]) = (r.at? o p).bind (r.read? · q) := by
  rw [valueAt?_eq, at?_append, Option.bind_assoc]
  refine Option.bind_congr fun x _ => ?_
  rw [at?_cons, next?]
  cases r.read? x q <;> rfl

theorem valueAt?_split (r : Registry) (o : Object) (p : Path) (q? : Option Property) :
    r.valueAt? o (p ++ (q?.map Key.property).toList) = (r.at? o p).bind (r.scalarOf? · q?) := by
  cases q? with
  | none => rw [Option.map_none, Option.toList_none, List.append_nil]; exact r.valueAt?_eq o p
  | some q => exact r.valueAt?_property o p q

end Registry

/-! ### Cursors on their way -/

/-- Evaluation without layers, from where the cursor stands to the place `p`, reads what is at `p`. -/
structure Cursor.Tracks (r : Registry) (o : Object) (cur : Cursor) (p : Path) : Prop
    extends Cursor.Stands r o cur p where
  root : cur.root = o
  operands : cur.operandOrigin? = none
  concrete : p.Concrete

namespace Cursor.Tracks
variable {r : Registry} {o x y : Object} {cur : Cursor} {p q s : Path} {k : Key}

theorem start (r : Registry) (o : Object) : (Cursor.start o).Tracks r o [] :=
  ⟨⟨Nat.le_refl 0, rfl⟩, rfl, rfl, fun _ hk => absurd hk List.not_mem_nil⟩

theorem extend (h : cur.Tracks r o p) (hk : k.isExpansion = false) : cur.Tracks r o (p ++ [k]) :=
  ⟨h.append [k], h.root, h.operands, h.concrete.append fun _ hl => List.mem_singleton.1 hl ▸ hk⟩

theorem atElement {container : Member} (h : cur.Tracks r o container.path)
    (hx : r.at? o container.path = some x) (hl : r.Leads x s y) :
    (cur.atElement container (s, y)).Tracks r o (container.path ++ s) := by
  refine ⟨⟨Nat.le_refl _, ?_⟩, h.root, h.operands, h.concrete.append hl.literal.concrete⟩
  simp only [Cursor.atElement, Cursor.moveTo, List.take_length]
  rw [Registry.at?_append, hx, Option.bind_some, hl.at_eq]

/-! ### Leaves -/

theorem left?_eq {k : Check} (h : cur.Tracks r o k.member.path) :
    cur.left? r k = r.valueAt? o (k.member.path ++ (k.property?.map Key.property).toList) := by
  rw [Cursor.left?_eq, h.sees, Registry.valueAt?_split]

theorem right?_member {k : Check} {m : Member} (h : cur.Tracks r o p) (hk : k.operand = .member m) :
    cur.right? r k = r.valueAt? o m.path := by
  have hbase : cur.operandBase = ({ object := o }, 0) := by rw [operandBase, h.operands, h.root]; rfl
  have hsees : cur.fromOperands.sees? r m.splitProperty.1.path = r.at? o m.splitProperty.1.path := by
    rw [fromOperands, hbase]; rfl
  rw [Cursor.right?_member cur r hk, hsees, ← Registry.valueAt?_split, m.splitProperty_join]

theorem compare_eq {t : Terms} {k : Check} (h : cur.Tracks t.registry o k.member.path) :
    cur.compare t.registry k =
      t.compareAt o (k.member.path ++ (k.property?.map Key.property).toList) k.operator k.operand := by
  rw [Cursor.compare, h.left?_eq]
  cases hk : k.operand with
  | value v => rw [cur.right?_value _ hk]; rfl
  | member m => rw [h.right?_member hk]; rfl
  | sample s => rw [cur.right?_sample _ hk, ← Registry.valueAt?_split]; rfl

theorem has_eq {m : Member} (h : cur.Tracks r o m.path)
    (howner : cur.consumed ≤ m.splitProperty.1.path.length) :
    cur.has r m.splitProperty.1 m.splitProperty.2 = (r.find? o m.path).isSome := by
  have hjoin := m.splitProperty_join
  have hsees := (h.of_prefix ⟨_, hjoin⟩ howner).sees
  rw [← r.isSome_at?, ← hjoin]
  cases hp : m.splitProperty.2 with
  | none =>
    rw [hp] at hjoin
    rw [Option.map_none, Option.toList_none, List.append_nil] at hjoin ⊢
    rw [has_none_concrete _ _ (hjoin ▸ h.concrete), hsees]
  | some q =>
    rw [has_some, hsees, Option.map_some, Option.toList_some, Registry.at?_append]
    cases r.at? o m.splitProperty.1.path with
    | none => rfl
    | some x => simp [Registry.at?_cons, Registry.next?]

end Cursor.Tracks

/-- A comparison is answered at its scope, under whatever name it is reported. -/
theorem Cursor.answer_compare (cur : Cursor) (r : Registry) (scope : Member) (p? : Option Property)
    (op : Operator) (operand : Operand) :
    cur.answer r (.compare scope p? op operand) = cur.compare r ⟨scope, p?, op, operand⟩ := by
  cases operand with
  | value v =>
    unfold Leaf.compare
    by_cases h : scope.isRoot = true
    · have hpath : scope.path = Member.root.path := List.isEmpty_iff.1 h
      simp only [h, if_true, answer, Cursor.compare, left?_eq, right?, hpath]
    · simp only [if_neg h]; rfl
  | member m => rfl
  | sample s => rfl

/-! ### Where existence is asked -/

/-- How the path of the current member ends. -/
inductive Standing where
  /-- Not in a property. -/
  | part
  | property
  /-- In a property, and the member is the first node of a tree that begins there. -/
  | node
deriving DecidableEq

namespace Standing

def after (s : Standing) : Key → Standing
  | .name _ | .index _ | .expand (.each _) | .expand (.variadic ..) => part
  | .property _ => property
  | .expand (.tree ..) => if s = part then part else node

end Standing

namespace Rule

mutual

/-- Whether no question of existence is asked of the first node of a tree that begins at a
property. -/
def asksOwners : Rule → Standing → Bool
  | condition .., _ | property .., _ => true
  | presence _, s => s != .node
  | bind m body, s => asksOwners body (m.path.foldl Standing.after s)
  | group _ rules, s => asksAllOwners rules s
  | elements e rules, s => asksAllOwners rules (s.after (.expand e))
  | explain _ body, s => asksOwners body s

def asksAllOwners : List Rule → Standing → Bool
  | [], _ => true
  | r :: rs, s => asksOwners r s && asksAllOwners rs s

end

end Rule

/-- What the standing of a member says about the cursor from which it is evaluated. -/
structure Standing.Describes (s : Standing) (cur : Cursor) (p : Path) : Prop where
  property : ∀ {q x}, p = q ++ [Key.property x] → s ≠ .part
  node : ∀ {q x}, p = q ++ [Key.property x] → cur.consumed = p.length → s = .node

namespace Standing.Describes
variable {r : Registry} {o x y : Object} {st : Standing} {cur : Cursor} {p s : Path} {k : Key} {e : Expansion}

theorem start (o : Object) : part.Describes (.start o) [] :=
  ⟨fun h => by simp at h, fun h => by simp at h⟩

theorem extend (h : cur.Tracks r o p) (hk : k.isExpansion = false) :
    (st.after k).Describes cur (p ++ [k]) := by
  constructor
  · intro q x hp
    obtain ⟨-, heq⟩ := List.append_inj' hp rfl
    cases heq
    simp [after]
  · intro q x _ hc
    have := h.le
    simp only [List.length_append, List.length_singleton] at hc
    omega

theorem atElement {container : Member} {depth? : Option Nat} {found : List (Path × Object)}
    (h : st.Describes cur container.path) (hf : r.found? depth? x e = some found)
    (hm : (s, y) ∈ found) (hl : r.Leads x s y) :
    (st.after (.expand e)).Describes (cur.atElement container (s, y)) (container.path ++ s) := by
  have hnode : ∀ {q z}, container.path ++ s = q ++ [Key.property z] → st.after (.expand e) = .node := by
    intro q z hp
    rcases List.eq_nil_or_concat s with rfl | ⟨s', k, rfl⟩
    · rw [List.append_nil] at hp
      have htree := Registry.isTree_of_mem_found? hf hm
      cases e with
      | tree => exact if_neg (h.property hp)
      | each | variadic => cases htree
    · rw [List.concat_eq_append, ← List.append_assoc] at hp
      obtain ⟨-, heq⟩ := List.append_inj' hp rfl
      cases heq
      exact absurd (hl.literal (.property z) (by simp)) (by simp [Key.isLiteral])
  exact ⟨fun hp => by rw [hnode hp]; decide, fun hp _ => hnode hp⟩

/-- The object that has the property is still ahead, unless the member is a node. -/
theorem owner_le {scope : Member} (hst : st.Describes cur scope.path) (h : cur.Tracks r o scope.path)
    (hnode : st ≠ .node) : cur.consumed ≤ scope.splitProperty.1.path.length := by
  have hjoin := scope.splitProperty_join
  have hle := h.le
  cases hp : scope.splitProperty.2 with
  | none =>
    rw [hp, Option.map_none, Option.toList_none, List.append_nil] at hjoin
    rwa [hjoin]
  | some q =>
    rw [hp, Option.map_some, Option.toList_some] at hjoin
    have hne : cur.consumed ≠ scope.path.length := fun heq => hnode (hst.node hjoin.symm heq)
    have hlen := congrArg List.length hjoin
    simp only [List.length_append, List.length_singleton] at hlen
    omega

end Standing.Describes

/-! ### Passes through no layers -/

namespace Chain

def bare (t : Terms) : Chain :=
  ⟨[], t⟩

variable {t : Terms} {o : Object} {st : Standing}

theorem connect_pure (k : Connective) (statuses : List Status) :
    connect k (statuses.map pure) = pure (k.fold statuses) := by
  cases k with
  | and => exact Status.allM_pure statuses
  | or => exact Status.anyM_pure statuses
  | not => rw [connect, Status.allM_pure, map_pure]; rfl

theorem ask_compare_bare {cur : Cursor} {scope : Member} (h : cur.Tracks t.registry o scope.path)
    (p? : Option Property) (op : Operator) (operand : Operand) :
    (bare t).ask cur (.compare scope p? op operand) =
      pure (t.compareAt o (scope.path ++ (p?.map Key.property).toList) op operand) := by
  have hk : cur.compare t.registry ⟨scope, p?, op, operand⟩ = _ := h.compare_eq (k := ⟨scope, p?, op, operand⟩)
  show pure (cur.answer t.registry _) = _
  rw [Cursor.answer_compare, hk]

theorem ask_presence_bare {cur : Cursor} {scope : Member} (h : cur.Tracks t.registry o scope.path)
    (hst : st.Describes cur scope.path) (hnode : st ≠ .node) (expected : Bool) :
    (bare t).ask cur (.presence scope.splitProperty.1 scope.splitProperty.2 expected) =
      pure (.ofBool ((t.registry.find? o scope.path).isSome == expected)) := by
  show pure (Status.ofBool (cur.has t.registry _ _ == expected)) = _
  rw [h.has_eq (hst.owner_le h hnode)]

theorem demand_bare {e : Expansion} {body : Eval} {f : Path → Status} (ho : o.WellFormed)
    (hbody : ∀ {cur : Cursor} {scope : Member}, cur.Tracks t.registry o scope.path →
      (st.after (.expand e)).Describes cur scope.path → body cur scope = pure (f scope.path))
    {cur : Cursor} {scope : Member} (h : cur.Tracks t.registry o scope.path)
    (hst : st.Describes cur scope.path) (q : Quantifier) :
    (bare t).demand q scope e body cur = pure (t.expandAt o e f scope.path) := by
  show (bare t).overElements scope e body cur = _
  have hfound : cur.found? t scope.path e =
      (t.registry.find? o scope.path).bind fun f => t.registry.found? t.settings.maxTreeDepth? f.object e := by
    rw [Cursor.found?, h.sees, Registry.at?, Option.bind_map]; rfl
  rw [Terms.expandAt, ← hfound]
  cases hf : cur.found? t scope.path e with
  | none => exact overElements_none hf
  | some found =>
    rw [overElements_some hf]
    rw [Cursor.found?, h.sees] at hf
    obtain ⟨x, hx, hf⟩ := Option.bind_eq_some_iff.1 hf
    refine tally_pure (fun _ _ => rfl) fun y hy => ?_
    have hl := Registry.leads_of_mem_found? (Registry.wellFormed_at? ho hx) hf hy
    exact hbody (h.atElement hx hl) (hst.atElement hf hy hl)

theorem descend_bare {body : Eval} {f : Path → Status} (ho : o.WellFormed) (path : Path)
    (hbody : ∀ {cur : Cursor} {scope : Member}, cur.Tracks t.registry o scope.path →
      (path.foldl Standing.after st).Describes cur scope.path → body cur scope = pure (f scope.path))
    {cur : Cursor} {scope : Member} (h : cur.Tracks t.registry o scope.path)
    (hst : st.Describes cur scope.path) :
    (bare t).descend body path cur scope = pure (t.alongAt o f path scope.path) := by
  induction path generalizing st cur scope with
  | nil => exact hbody h hst
  | cons k path ih =>
    by_cases hk : k.isExpansion = true
    · cases k with
      | expand e => exact demand_bare ho (fun h hst => ih hbody h hst) h hst e.quantifier
      | name | index | property => cases hk
    · rw [Bool.not_eq_true] at hk
      have hextend : cur.Tracks t.registry o (scope.extend [k]).path := h.extend hk
      have hrest := ih hbody hextend (.extend h hk)
      cases k with
      | expand => cases hk
      | name | index | property => exact hrest

end Chain

namespace Rule
variable {t : Terms} {o : Object}

mutual

theorem eval_bare (ho : o.WellFormed) : ∀ (r : Rule) {st : Standing} {cur : Cursor} {scope : Member},
    cur.Tracks t.registry o scope.path → st.Describes cur scope.path → r.asksOwners st = true →
      r.eval (.bare t) cur scope = pure (r.direct t o scope.path)
  | condition op operand, _, _, _, h, _, _ => by
    rw [eval, direct, Chain.ask_compare_bare h, Option.map_none, Option.toList_none, List.append_nil]
  | property q op operand, _, _, _, h, _, _ => by
    rw [eval, direct, Chain.ask_compare_bare h]; rfl
  | presence expected, _, _, _, h, hst, hr => by
    rw [asksOwners, bne_iff_ne] at hr
    rw [eval, direct, Chain.ask_presence_bare h hst hr]
  | bind m body, _, cur, scope, h, hst, hr => by
    rw [asksOwners] at hr
    rw [eval, direct]
    have hscope : cur.Tracks t.registry o (scope.adoptNames m).path := h
    exact Chain.descend_bare ho m.path (fun h hst => eval_bare ho body h hst hr) hscope hst
  | group k rules, _, cur, scope, h, hst, hr => by
    rw [asksOwners] at hr
    rw [eval, direct, ← Chain.connect_pure, ← evals_bare ho rules h hst hr]; rfl
  | elements e rules, st, cur, scope, h, hst, hr => by
    rw [asksOwners] at hr
    rw [eval, direct]
    refine Chain.demand_bare ho (fun {cur scope} h hst => ?_) h hst _
    rw [evals_bare ho rules h hst hr, Status.allM_pure]
  | explain message body, _, cur, scope, h, hst, hr => by
    rw [asksOwners] at hr
    rw [eval, direct]
    exact eval_bare ho body h hst hr

theorem evals_bare (ho : o.WellFormed) : ∀ (rs : List Rule) {st : Standing} {cur : Cursor} {scope : Member},
    cur.Tracks t.registry o scope.path → st.Describes cur scope.path → asksAllOwners rs st = true →
      (evals (.bare t) rs).map (fun run => run cur scope) = (directs t o rs scope.path).map pure
  | [], _, _, _, _, _, _ => rfl
  | r :: rs, _, _, _, h, hst, hr => by
    rw [asksAllOwners, Bool.and_eq_true] at hr
    rw [evals, directs, List.map_cons, List.map_cons, eval_bare ho r h hst hr.1, evals_bare ho rs h hst hr.2]

end

end Rule

/-! ### The question that is denied -/

theorem Terms.alongAt_concrete (t : Terms) (o : Object) (body : Path → Status) {q : Path} (hq : q.Concrete)
    (rest p : Path) : t.alongAt o body (q ++ rest) p = t.alongAt o body rest (p ++ q) := by
  induction q generalizing p with
  | nil => rw [List.nil_append, List.append_nil]
  | cons k q ih =>
    have hk := hq k (List.mem_cons_self ..)
    have ih := ih (fun l hl => hq l (List.mem_cons_of_mem _ hl)) (p ++ [k])
    rw [List.append_assoc, List.singleton_append] at ih
    cases k with
    | expand => cases hk
    | name | index | property => exact ih

namespace Chain
variable {t : Terms} {o : Object} {q : Path} {p : Property}

theorem descend_concrete (c : Chain) (body : Eval) (hq : q.Concrete) (rest : Path) (cur : Cursor) (scope : Member) :
    c.descend body (q ++ rest) cur scope = c.descend body rest cur (scope.extend q) := by
  induction q generalizing scope with
  | nil => rw [Member.extend_nil, List.nil_append]
  | cons k q ih =>
    have hk := hq k (List.mem_cons_self ..)
    have ih := ih (fun l hl => hq l (List.mem_cons_of_mem _ hl)) (scope.extend [k])
    rw [← Member.extend_append] at ih
    cases k with
    | expand => cases hk
    | name | index | property => exact ih

/-- Where the cursor has passed the owner of a property, the property is not found. -/
theorem answer_presence_lost {cur : Cursor} {scope : Member} (r : Registry) (h : scope.path = q ++ [.property p])
    (hc : cur.consumed = scope.path.length) :
    cur.answer r (.presence scope.splitProperty.1 scope.splitProperty.2 true) = .fail := by
  obtain ⟨howner, hprop⟩ := Member.splitProperty_concat h
  have hlt : scope.splitProperty.1.path.length < cur.consumed := by
    rw [hc, h, howner, List.length_append, List.length_singleton]; omega
  rw [Cursor.answer, hprop, Cursor.has_some, Cursor.sees?_of_lt _ hlt]
  rfl

theorem ask_presence_lost {cur : Cursor} {scope : Member} (h : scope.path = q ++ [.property p])
    (hc : cur.consumed = scope.path.length) :
    (bare t).ask cur (.presence scope.splitProperty.1 scope.splitProperty.2 true) = pure .fail :=
  congrArg pure (answer_presence_lost t.registry h hc)

theorem tally_fail {c : Chain} {container : Member} {e : Expansion} {body : Eval} {cur : Cursor}
    {x : Path × Object} {found : List (Path × Object)} (he : e.quantifier = .all)
    (h : body (cur.atElement container x) (container.element x.1 e.display?) = pure .fail) :
    c.tally container e body cur (x :: found) = pure .fail := by
  simp only [tally, visitEach_cons]
  rw [h, he]
  rfl

end Chain

namespace Rule
variable {t : Terms} {o x : Object} {q : Path} {p : Property} {children : Key} {depth? : Option Nat}

/-- Whether every node of a tree that begins at a property exists. -/
def nodesExist (q : Path) (p : Property) (children : Key) (depth? : Option Nat) : Rule :=
  .bind { path := q ++ [.property p, .expand (.tree .all children depth?)] } (.presence true)

theorem eval_nodesExist (hx : t.registry.at? o (q ++ [.property p]) = some x) :
    (nodesExist q p children depth?).eval (.bare t) (.start o) .root = pure .fail := by
  set e : Expansion := .tree .all children depth?
  set scope : Member := Member.root.extend (q ++ [.property p])
  have hscope : scope.path = q ++ [.property p] := List.nil_append _
  have hdescend : (nodesExist q p children depth?).eval (.bare t) (.start o) .root =
      (Chain.bare t).demand .all scope e ((presence true).eval (.bare t)) (.start o) := by
    have hq : q ++ [.property p, .expand e] = (q ++ [.property p]) ++ [.expand e] := by simp
    show (Chain.bare t).descend _ (q ++ [.property p, .expand e]) _ _ = _
    rw [hq, Chain.descend_concrete _ _ (Registry.concrete_of_at? hx)]
    rfl
  have hsees : (Cursor.start o).sees? t.registry scope.path = some x := by
    rw [hscope, ← hx]; rfl
  have hfound : ∃ found, (Cursor.start o).found? t scope.path e = some (([], x) :: found) := by
    rw [Cursor.found?, hsees, Option.bind_some, Registry.found?]
    cases (depth?.or t.settings.maxTreeDepth?).getD x.height <;> exact ⟨_, rfl⟩
  obtain ⟨found, hfound⟩ := hfound
  rw [hdescend]
  show (Chain.bare t).overElements scope e _ _ = _
  rw [Chain.overElements_some hfound]
  refine Chain.tally_fail rfl (Chain.ask_presence_lost (q := q) (p := p) ?_ rfl)
  show scope.path ++ [] = _
  rw [List.append_nil, hscope]

theorem direct_nodesExist (ho : o.WellFormed) (hx : t.registry.at? o (q ++ [.property p]) = some x) :
    (nodesExist q p children depth?).direct t o [] = .success := by
  set e : Expansion := .tree .all children depth?
  have halong : (nodesExist q p children depth?).direct t o [] =
      t.expandAt o e ((presence true).direct t o) (q ++ [.property p]) := by
    have hq : q ++ [.property p, .expand e] = (q ++ [.property p]) ++ [.expand e] := by simp
    rw [nodesExist, direct, hq, Terms.alongAt_concrete _ _ _ (Registry.concrete_of_at? hx)]
    rfl
  have hfind : (t.registry.find? o (q ++ [.property p])).map Found.object = some x := hx
  obtain ⟨f, hf, hfx⟩ := Option.map_eq_some_iff.1 hfind
  rw [halong, Terms.expandAt, hf, Option.bind_some, hfx]
  obtain ⟨found, hfound⟩ : ∃ found, t.registry.found? t.settings.maxTreeDepth? x e = some (([], x) :: found) := by
    rw [Registry.found?]
    cases (depth?.or t.settings.maxTreeDepth?).getD x.height <;> exact ⟨_, rfl⟩
  have hexists : ∀ y ∈ ([], x) :: found,
      (presence true).direct t o ((q ++ [.property p]) ++ y.1) = .success := by
    intro y hy
    have hl := Registry.leads_of_mem_found? (Registry.wellFormed_at? ho hx) hfound hy
    have hat : (t.registry.find? o ((q ++ [.property p]) ++ y.1)).isSome = true := by
      rw [← Registry.isSome_at?, Registry.at?_append, hx, Option.bind_some, hl.at_eq, Option.isSome_some]
    rw [direct, hat]; rfl
  rw [hfound]
  refine Quantifier.fold_all_success (List.cons_ne_nil _ _) fun s hs => ?_
  obtain ⟨y, hy, rfl⟩ := List.mem_map.1 hs
  exact hexists y hy

end Rule

/-! ### Cursors are invisible -/

/-- A pass through no layers answers a rule as if every path were followed from the validated
object, and leaves no record, unless existence is asked of the first node of a tree that begins at
a property. That question is denied even where the node exists. -/
theorem Chain.evaluate_bare (t : Terms) (o : Object) (ho : o.WellFormed) :
    (∀ (r : Rule) (rec : Record), r.asksOwners .part = true →
      ((bare t).evaluate r o).run rec = (r.direct t o [], rec)) ∧
    ∀ (q : Path) (p : Property) (children : Key) (depth? : Option Nat) (rec : Record),
      (t.registry.find? o (q ++ [.property p])).isSome = true →
        ((bare t).evaluate (.nodesExist q p children depth?) o).run rec = (.fail, rec) ∧
          (Rule.nodesExist q p children depth?).direct t o [] = .success := by
  refine ⟨fun r rec hr => ?_, fun q p children depth? rec hp => ?_⟩
  · rw [evaluate, r.eval_bare ho (.start t.registry o) (.start o) hr]; rfl
  · rw [← Registry.isSome_at?] at hp
    obtain ⟨x, hx⟩ := Option.isSome_iff_exists.1 hp
    rw [evaluate, Rule.eval_nodesExist hx]
    exact ⟨rfl, Rule.direct_nodesExist ho hx⟩

/-- The sizes of a nested list are behind a property, and the rules reach into a wrapped document. -/
theorem Chain.evaluate_bare_nested :
    let t : Terms := { registry := Registry.standard.register "items" Getter.items }
    let o : Object := .record
      [("marks", .sequence [.scalar (.int 3), .shared (.scalar (.int 5))]),
       ("team", .optional (some (.json (.object [("lead", .int 1), ("team", .list [.object [("lead", .int 7)]])]))))]
    let r : Rule := .group .and
      [.bind { path := [.name "marks", .property { name := "items" }, .expand (.each .all)] }
        (.condition (.compare .gt) (.value (.int 2))),
       .group .not [.bind { path := [.name "team", .expand (.tree .any (.name "team") none), .name "lead"] }
        (.condition (.compare .gt) (.member { path := [.name "marks", .index 1] }))]]
    (o.WellFormed ∧ r.asksOwners .part = true ∧ (t.registry.find? o [.name "marks", .property .size]).isSome = true) ∧
      ((bare t).evaluate r o).run default = (.fail, default) ∧
      ((bare t).evaluate (.nodesExist [.name "marks"] .size (.index 0) none) o).run default = (.fail, default) := by
  intro t o r
  have ho : o.WellFormed := by decide
  have hr : r.asksOwners .part = true := by decide
  have hp : (t.registry.find? o [.name "marks", .property .size]).isSome = true := by decide
  have hdirect : r.direct t o [] = .fail := by decide
  have h := evaluate_bare t o ho
  refine ⟨⟨ho, hr, hp⟩, ?_, (h.2 [.name "marks"] .size (.index 0) none default hp).1⟩
  rw [h.1 r default hr, hdirect]

/-- A list has a size, but the node that is this size is said not to exist. -/
theorem Chain.evaluate_bare_denies_size :
    let r : Rule := .nodesExist [.name "a"] .size (.name "x") none
    let o : Object := .json (.object [("a", .list [.int 1])])
    (((bare {}).evaluate r o).run default).1 = .fail ∧ r.direct {} o [] = .success := by
  decide

end Conform
