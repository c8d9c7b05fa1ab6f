import Conform.Proofs.Replacement

/-!
# Documents after a committed write

A committed write satisfies the rules on its member if it moves none of the elements that they
demand (`Rule.Steady`). It need not otherwise: an element that the write adds has not been looked
at, and a tree that goes on below the written place has looked at what was there before.
-/

namespace Conform

/-! ### Passes that fail -/

/-- Whatever has been recorded, the answer is a failure. -/
def Pass.Fails (run : Pass Status) : Prop :=
  ∀ rec, (run.run rec).1 = .fail

theorem Chain.fails_tally {c : Chain} {container : Member} {e : Expansion} {body : Eval} {cur : Cursor}
    {found : List (Path × Object)} (he : e.quantifier = .all)
    (h : ∀ x ∈ found, body (cur.atElement container x) (container.element x.1 e.display?) = pure .success ∨
      Pass.Fails (body (cur.atElement container x) (container.element x.1 e.display?)))
    (hfail : ∃ x ∈ found, Pass.Fails (body (cur.atElement container x) (container.element x.1 e.display?))) :
    Pass.Fails (c.tally container e body cur found) := by
  intro rec
  simp only [tally, he]
  generalize ({} : Tally) = t
  induction found generalizing t with
  | nil => obtain ⟨x, hx, -⟩ := hfail; cases hx
  | cons x xs ih =>
    rw [visitEach_cons, bind_assoc]
    rcases h x (List.mem_cons_self ..) with hx | hx
    · obtain ⟨y, hy, hfail⟩ := hfail
      rw [hx]
      rcases List.mem_cons.1 hy with rfl | hy
      · rw [hx] at hfail
        exact absurd (hfail rec) (by simp)
      -- a success lets the loop go on to the element that fails
      · simp only [map_pure, pure_bind]
        exact ih (fun y hy => h y (List.mem_cons_of_mem _ hy)) ⟨y, hy, hfail⟩ _
    · have hs := hx rec
      rcases hrun : (body (cur.atElement container x) (container.element x.1 e.display?)).run rec with ⟨s, rec'⟩
      rw [hrun] at hs
      subst hs
      rw [StateT.run_bind, StateT.run_map, hrun]
      rfl

theorem Chain.fails_askThrough {c : Chain} {cur : Cursor} {l : Leaf} (e : Existence)
    (hguard : ∀ abort, c.guarded abort cur l = some (cur, l)) (h : cur.answer c.registry l = .fail) :
    Pass.Fails (c.askThrough ((Layer.ofExistence? e).toList ++ [.reporting]) cur l) := by
  have hreported : Pass.Fails (c.askThrough [.reporting] cur l) := fun rec => h
  have hguarded : ∀ abort, Pass.Fails (c.askThrough [.guard abort, .reporting] cur l) := fun abort => by
    rw [askThrough, hguard]
    exact hreported
  cases e with
  | optimistic => exact hreported
  | safe => exact hguarded false
  | abort => exact hguarded true

theorem Chain.fails_framed {b : Branch} {run : Pass Status} (h : Pass.Fails run) : Pass.Fails (framed b run) :=
  fun _ => h _

namespace Rule

/-- Compares whatever an expansion leads to with a value. -/
def comparing (e : Expansion) (op : Operator) (value : Value) : Rule :=
  .bind { path := [.expand e] } (.condition op (.value value))

end Rule

namespace Validator

theorem status_eq_run (v : Validator) (o : Object) (f : Filter) :
    (v.run o f).status = (((v.chain f).evaluate v.rule o).run { reporter := { locale := v.locale } }).1 := rfl

theorem of_commit {v : Validator} {doc doc' candidate : Json} {m : Member}
    (h : v.commit doc m candidate = (doc', .ok ())) :
    (v.prevalidate (.json doc) m (.json candidate)).status ≠ .fail ∧
      Json.put candidate m.path doc = (doc', true) := by
  unfold commit at h
  split at h
  next => cases h
  next hresult =>
    split at h
    next doc'' hput =>
      cases h
      refine ⟨fun hs => ?_, hput⟩
      rw [Outcome.result_of_fail hs] at hresult
      cases hresult
    next => cases h

theorem commit_of_valid {v : Validator} {doc doc' candidate : Json} {m : Member}
    (h : (v.prevalidate (.json doc) m (.json candidate)).status ≠ .fail)
    (hput : Json.put candidate m.path doc = (doc', true)) : v.commit doc m candidate = (doc', .ok ()) := by
  rw [commit, Outcome.result_of_ne_fail h, hput]

variable {v : Validator} {fields : List (String × Json)} {candidate : Json} {s : String} {op : Operator}
  {value : Value}

theorem found?_fields (t : Terms) (fields : List (String × Json)) (q : Quantifier) :
    (Cursor.start (.json (.object fields))).found? t [] (.each q) =
      some (fields.map fun f => ([.name f.1], .json f.2)) := by
  show some (((fields.map _).map _).map _) = _
  rw [List.map_map, List.map_map]
  rfl

theorem evaluate_comparing (c : Chain) (e : Expansion) (o : Object) :
    c.evaluate (.comparing e op value) o =
      c.demand e.quantifier .root e (fun cur scope => c.ask cur (.compare scope none op (.value value)))
        (.start o) := rfl

theorem literal_singleton (s : String) : Path.Literal [.name s] := fun _ hk => List.mem_singleton.1 hk ▸ rfl

theorem covers_name {n : String} : Path.covers [.name s] [.name n] = true ↔ s = n := by
  rw [Path.covers_iff (literal_singleton s), List.cons_prefix_cons]
  simp

theorem not_covers_element (op : Operator) (value : Value) {n : String} (hn : n ≠ s) :
    ¬ Path.covers [.name s]
      (Leaf.compare (Member.root.element [.name n] none) none op (.value value)).member.path = true :=
  fun h => hn (covers_name.1 h).symm

/-- A name that is not there yet is not among the elements that a candidate for it is checked with. -/
theorem prevalidate_fresh (hrule : v.rule = .comparing (.each .all) op value) (hempty : v.terms.settings.allEmpty ≠ .fail)
    (hfresh : Fields.get? s fields = none) :
    (v.prevalidate (.json (.object fields)) { path := [.name s] } (.json candidate)).status ≠ .fail := by
  rw [prevalidate, status_eq_run, hrule, evaluate_comparing, Chain.demand, around_candidate_elements]
  have helement : ∀ x ∈ fields.map fun f => (([.name f.1], .json f.2) : Path × Object), ∀ cur,
      (v.chain (.candidate { path := [.name s] } (.json candidate) false)).ask cur
        (.compare (Member.root.element x.1 none) none op (.value value)) = pure .success := by
    intro x hx cur
    obtain ⟨f, hf, rfl⟩ := List.mem_map.1 hx
    rw [ask_candidate rfl, if_neg (not_covers_element op value (Fields.ne_of_mem hfresh hf))]
  rw [if_neg (by simp [Path.covers, Member.root]), Chain.overElements_some (found?_fields _ _ _),
    Chain.tally_pure (f := fun _ => .success) passes_candidate fun x hx => helement x hx _]
  show Quantifier.fold .all v.terms.settings.allEmpty _ ≠ .fail
  cases fields with
  | nil => exact hempty
  | cons f fs =>
    have hsuccess : Quantifier.fold .all v.terms.settings.allEmpty
        (((f :: fs).map fun f => (([.name f.1], .json f.2) : Path × Object)).map fun _ => .success) = .success :=
      Quantifier.fold_all_success (List.cons_ne_nil _ _) fun s hs => by
        obtain ⟨x, -, rfl⟩ := List.mem_map.1 hs
        rfl
    rw [hsuccess]
    decide

theorem fails_stored (hviolated : candidate.scalar?.bind (op.apply · value) = some false) (o : Object) :
    Pass.Fails ((v.chain (.member { path := [.name s] })).ask
      ((Cursor.start o).atElement .root ([.name s], .json candidate))
      (.compare (Member.root.element [.name s] none) none op (.value value))) := by
  obtain ⟨a, ha, happly⟩ := Option.bind_eq_some_iff.1 hviolated
  set cur := (Cursor.start o).atElement .root ([.name s], .json candidate)
  set k : Check :=
    { member := Member.root.element [.name s] none, property? := none, operator := op, operand := .value value }
  have hleaf : Leaf.compare (Member.root.element [.name s] none) none op (.value value) = .check .member k := rfl
  have hsees : cur.sees? v.terms.registry k.member.path = some (.json candidate) := rfl
  have hhas : cur.has v.terms.registry k.member none = true := Cursor.has_none_of_sees? hsees
  have hleft : cur.left? v.terms.registry k = some a := by
    rw [Cursor.left?_eq, hsees]
    exact ha
  have hanswer : cur.compare v.terms.registry k = .fail := by
    rw [Cursor.compare, hleft]
    show Status.ofOption (op.apply a value) = _
    rw [happly]
    rfl
  have hcovers : Path.covers [.name s] (Leaf.check .member k).member.path = true := covers_name.2 rfl
  rw [hleaf, ask_member (literal_singleton s), if_pos hcovers]
  exact Chain.fails_askThrough _ (fun abort => Chain.guarded_value abort _ hhas rfl) hanswer

theorem validateMember_fresh (hrule : v.rule = .comparing (.each .all) op value) (hfresh : Fields.get? s fields = none)
    (hviolated : candidate.scalar?.bind (op.apply · value) = some false) :
    (v.validateMember (.json (.object (Fields.set s candidate fields))) { path := [.name s] }).status = .fail := by
  rw [validateMember, status_eq_run, hrule, evaluate_comparing, Chain.demand,
    around_member _ fun _ => Branch.frame_elements_ne _ _]
  refine Chain.fails_framed ?_ _
  rw [Chain.overElements_some (found?_fields _ _ _)]
  refine Chain.fails_tally rfl ?_ ?_
  · intro x hx
    obtain ⟨f, hf, rfl⟩ := List.mem_map.1 hx
    rcases Fields.mem_set hf with rfl | hf
    · exact .inr (fails_stored hviolated _)
    · have hn := not_covers_element op value (Fields.ne_of_mem hfresh hf)
      exact .inl ((ask_member (literal_singleton s) _ _).trans (if_neg hn))
  · refine ⟨([.name s], .json candidate), List.mem_map.2 ⟨(s, candidate), ?_, rfl⟩, fails_stored hviolated _⟩
    exact Fields.mem_of_get? (by rw [Fields.get?_set, if_pos rfl])

theorem enter_of_lt {cand : Candidate} {cur : Cursor} (h : cand.path.length < cur.consumed) : cand.enter cur = cur := by
  rw [Candidate.enter, if_neg]
  simp [Candidate.isAhead, Nat.not_lt_of_gt h, Nat.ne_of_gt h]

/-- A tree through the written name finds its nodes in the object as it is stored. -/
theorem ask_node {o x : Object} {levels : Nat} {y : Path × Object} (hy : y ∈ o.nodes (.name s) levels [])
    (display? : Option Key) :
    (v.chain (.candidate { path := [.name s] } x false)).ask ((Cursor.start o).atElement .root y)
        (.compare (Member.root.element y.1 display?) none op (.value value)) =
      (v.chain (.member { path := [.name s] })).ask ((Cursor.start o).atElement .root y)
        (.compare (Member.root.element y.1 display?) none op (.value value)) := by
  set cur := (Cursor.start o).atElement .root y
  set cand : Candidate := { path := [.name s], object := x }
  rw [ask_candidate (Leaf.isFixed_compare ..), ask_member (literal_singleton s)]
  rcases Registry.path_of_mem_nodes hy with hroot | ⟨k, rest, hbelow⟩
  -- the node itself is outside of the written place, and its descendants are two keys below it
  · have hout : ¬ Path.covers [.name s]
        (Leaf.compare (Member.root.element y.1 display?) none op (.value value)).member.path = true := by
      rw [Path.covers_iff (literal_singleton s), hroot]
      intro h
      cases List.prefix_nil.1 h
    rw [if_neg hout, if_neg hout]
  · have hconsumed : cand.path.length < cur.consumed := by
      show 1 < ([] ++ y.1).length
      simp [hbelow]
    rw [enter_of_lt hconsumed]
    have hregistry : (v.chain (.candidate { path := [.name s] } x false)).registry =
        (v.chain (.member { path := [.name s] })).registry := rfl
    exact ite_congr rfl (fun _ => Chain.askThrough_agree hregistry _ (Leaf.isFixed_compare ..) (.of_eq rfl rfl))
      fun _ => rfl

/-- The candidate makes no difference to a tree through the written name. -/
theorem prevalidate_tree {q : Quantifier} {depth? : Option Nat}
    (hrule : v.rule = .comparing (.tree q (.name s) depth?) op value) (o x : Object) :
    v.prevalidate o { path := [.name s] } x = v.validateMember o { path := [.name s] } := by
  set m : Member := { path := [.name s] }
  set e : Expansion := .tree q (.name s) depth?
  have helements : (v.chain (.candidate m x false)).overElements .root e
      (fun cur scope => (v.chain (.candidate m x false)).ask cur (.compare scope none op (.value value))) (.start o) =
    (v.chain (.member m)).overElements .root e
      (fun cur scope => (v.chain (.member m)).ask cur (.compare scope none op (.value value))) (.start o) := by
    have hf : (Cursor.start o).found? v.terms [] e = v.terms.found? o [] e := rfl
    rw [Chain.overElements_some (c := v.chain _) hf, Chain.overElements_some (c := v.chain _) hf]
    exact Chain.tally_congr rfl passes_eq (List.forall₂_same.2 fun y hy => ⟨rfl, ask_node hy _⟩)
  have heval : (v.chain (.candidate m x false)).evaluate v.rule o = (v.chain (.member m)).evaluate v.rule o := by
    rw [hrule, evaluate_comparing, evaluate_comparing, Chain.demand, Chain.demand, around_candidate_elements,
      around_member _ fun _ => Branch.frame_elements_ne _ _, if_neg (by simp [Path.covers, Member.root, m]), helements]
  rw [prevalidate, validateMember, run, run, heval]

/-- A committed write leaves no rule on the written member violated if it moves none of the elements
that the rules demand, as where it replaces a part of the document and the rules only list the
elements of stored containers. A name that the write adds is not looked at as an element, and a tree
through the written name is judged by the nodes that were there before. -/
theorem commit_accepted (v : Validator) :
    (v.rule.isFixed = true → v.rule.isPositive = true → ∀ (doc candidate doc' : Json) (m : Member),
      doc.WellFormed → candidate.WellFormed → v.commit doc m candidate = (doc', .ok ()) →
        (v.rule.Steady v.terms (.json doc) (.json doc') m.path →
          (v.validateMember (.json doc') m).status ≠ .fail) ∧
        ((v.terms.registry.find? (.json doc) m.path).isSome = true → v.rule.isPlain false = true →
          v.rule.Steady v.terms (.json doc) (.json doc') m.path)) ∧
    (∀ (fields : List (String × Json)) (s : String) (candidate : Json) (op : Operator) (value : Value),
      Fields.get? s fields = none → v.terms.settings.allEmpty ≠ .fail →
      candidate.scalar?.bind (op.apply · value) = some false →
        let w : Validator := { v with rule := .comparing (.each .all) op value }
        let doc' := Json.object (Fields.set s candidate fields)
        w.commit (.object fields) { path := [.name s] } candidate = (doc', .ok ()) ∧
          (w.validateMember (.json doc') { path := [.name s] }).status = .fail) ∧
    ∀ (q : Quantifier) (s : String) (depth? : Option Nat) (op : Operator) (value : Value) (doc candidate doc' : Json),
      let w : Validator := { v with rule := .comparing (.tree q (.name s) depth?) op value }
      w.commit doc { path := [.name s] } candidate = (doc', .ok ()) ↔
        (w.validateMember (.json doc) { path := [.name s] }).status ≠ .fail ∧
          Json.put candidate [.name s] doc = (doc', true) := by
  refine ⟨fun hfixed hpositive doc candidate doc' m hdoc hc hcommit => ?_,
    fun fields s candidate op value hfresh hempty hviolated => ?_,
    fun q s depth? op value doc candidate doc' => ?_⟩
  · obtain ⟨hvalid, hput⟩ := of_commit hcommit
    refine ⟨fun hsteady => ?_, fun hat hplain => ?_⟩
    · have hw := Json.stores_put (r := v.terms.registry) hput hdoc hc
      rwa [← prevalidate_eq_validateMember hw hfixed (fun _ => hpositive) hsteady]
    · rw [← Registry.isSome_at?] at hat
      exact Rule.steady_of_isPlain hplain hput hdoc hat
  · intro w doc'
    exact ⟨commit_of_valid (prevalidate_fresh rfl hempty hfresh) rfl, validateMember_fresh rfl hfresh hviolated⟩
  · intro w
    rw [← prevalidate_tree rfl (.json doc) (.json candidate)]
    exact ⟨of_commit, fun h => commit_of_valid h.1 h.2⟩

/-- A price may be replaced by another one; a debt added beside a total is not looked at. -/
theorem commit_accepted_price :
    let r : Rule := .group .or
      [.bind { path := [.name "items", .expand (.each .all), .name "price"] }
        (.condition (.compare .gt) (.value (.int 0))),
       .bind { path := [.name "note"] } (.presence true)]
    let v : Validator := { rule := r, terms := { settings := { existence := .abort } } }
    let w : Validator := { v with rule := .comparing (.each .all) (.compare .gt) (.int 0) }
    let doc : Json := .object [("items", .list [.object [("price", .int 3)]])]
    let doc' : Json := .object [("items", .list [.object [("price", .int 4)]])]
    let m : Member := { path := [.name "items", .index 0, .name "price"] }
    (r.isFixed = true ∧ r.isPositive = true ∧ doc.WellFormed ∧ Json.WellFormed (.int 4) ∧
      v.commit doc m (.int 4) = (doc', .ok ()) ∧ (v.terms.registry.find? (.json doc) m.path).isSome = true ∧
      r.isPlain false = true) ∧
    (v.validateMember (.json doc') m).status ≠ .fail ∧
    w.commit (.object [("total", .int 3)]) { path := [.name "debt"] } (.int (-2)) =
      (.object [("debt", .int (-2)), ("total", .int 3)], .ok ()) := by
  intro r v w doc doc' m
  have hfixed : r.isFixed = true := by decide
  have hpositive : r.isPositive = true := by decide
  have hplain : r.isPlain false = true := by decide
  have hdoc : doc.WellFormed := by decide
  have hc : Json.WellFormed (.int 4) := by decide
  have hcommit : v.commit doc m (.int 4) = (doc', .ok ()) := commit_of_valid (by decide) rfl
  have hat : (v.terms.registry.find? (.json doc) m.path).isSome = true := by decide
  have h := (commit_accepted v).1 hfixed hpositive doc (.int 4) doc' m hdoc hc hcommit
  refine ⟨⟨hfixed, hpositive, hdoc, hc, hcommit, hat, hplain⟩, h.1 (h.2 hat hplain), ?_⟩
  exact ((commit_accepted v).2.1 [("total", .int 3)] "debt" (.int (-2)) (.compare .gt) (.int 0) (by decide) (by decide)
    (by decide)).1

/-- The children of a node are replaced, but those that a tree goes on to are the old ones. -/
theorem commit_accepts_child :
    let r : Rule := .elements (.tree .all (.name "kids") none)
      [.bind { path := [.name "v"] } (.condition (.compare .gt) (.value (.int 0)))]
    let v : Validator := { rule := r }
    let doc : Json := .object [("kids", .list [.object [("v", .int 1)]]), ("v", .int 1)]
    let doc' : Json := .object [("kids", .list [.object [("v", .int (-1))]]), ("v", .int 1)]
    let m : Member := { path := [.name "kids"] }
    v.commit doc m (.list [.object [("v", .int (-1))]]) = (doc', .ok ()) ∧
      (v.validateMember (.json doc') m).status = .fail := by
  intro r v doc doc' m
  exact ⟨commit_of_valid (by decide) rfl, by decide⟩

end Validator

end Conform
