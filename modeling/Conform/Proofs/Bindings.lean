import Conform.Proofs.Rewriting
import Conform.Validator

/-!
# Bindings one inside the other

A binding inside a binding can be joined to one binding of the concatenated member
(`Rule.eval_joined`): the rest of a path behind an expansion is followed for each element, no matter
whether it belongs to the same binding or to an inner one (`Chain.descend_append`). Before a negation
the members that are read are cut at the first expansion of either (`Mentions.rule_joined`). So the
two rules take the place of each other anywhere in a rule (`Validator.outcomes_joined`).
-/

namespace Conform

theorem Path.firstExpansion?_append (p q : Path) :
    firstExpansion? (p ++ q) = (firstExpansion? p).or ((firstExpansion? q).map (· + p.length)) :=
  List.findIdx?_append

theorem Path.take_of_firstExpansion? {p : Path} {cut : Nat} (h : firstExpansion? p = some cut) (q : Path) :
    (p ++ q).take cut = p.take cut := by
  obtain ⟨hcut, -⟩ := List.findIdx?_eq_some_iff_getElem.1 h
  exact List.take_append_of_le_length (Nat.le_of_lt hcut)

theorem Member.adoptNames_of_nameless {bound : Member} (h : bound.names = []) (m : Member) : m.adoptNames bound = m := by
  simp [adoptNames, h]

namespace Chain

theorem descend_append (c : Chain) (body : Eval) (p q : Path) :
    c.descend body (p ++ q) = c.descend (c.descend body q) p := by
  induction p with
  | nil => rfl
  | cons k p ih =>
    funext cur scope
    cases k with
    | expand e => rw [List.cons_append, descend, descend, ih]
    | name | index | property => exact congrFun (congrFun ih cur) _

variable {c : Chain} {k : Connective} {scope : Member} {rules rules' : List Rule}

/-- Layers other than handlers see no more of the rules of a connective than what these read. -/
theorem aroundThrough_group (h : Mentions.ofRules scope rules = Mentions.ofRules scope rules') {layers : List Layer}
    (hfree : ∀ layer ∈ layers, layer.isHandler = false) (cur : Cursor) (body : Cursor → Pass Status) :
    c.aroundThrough layers cur (.group k scope rules) body = c.aroundThrough layers cur (.group k scope rules') body := by
  induction layers generalizing cur with
  | nil => rfl
  | cons layer rest ih =>
    obtain ⟨hlayer, hrest⟩ := List.forall_mem_cons.1 hfree
    specialize ih hrest
    cases layer with
    | handler => cases hlayer
    | single | candidate => exact ih _
    | recorder name =>
      rw [aroundThrough, aroundThrough, ih]
      rfl
    | reporting =>
      have hframe : (Branch.group k scope rules).frame = (Branch.group k scope rules').frame := by cases k <;> rfl
      rw [aroundThrough, aroundThrough, ih, hframe]
    | guard abort =>
      cases k with
      | and | or => cases abort <;> exact ih cur
      | not =>
        cases abort with
        | false => exact ih cur
        | true => rw [aroundThrough, aroundThrough, precheck, precheck, h, ih]

end Chain

namespace Rule

/-- The step from two bindings to one; the inner one must not name anything. -/
inductive Joins : Rule → Rule → Prop
  | join (outer : Member) {inner : Member} (body : Rule) (h : inner.names = []) :
    Joins (.bind outer (.bind inner body)) (.bind (outer.extend inner.path) body)

end Rule

theorem Mentions.rule_joined (outer inner : Member) (body : Rule) (scope : Member) (ms : Mentions) :
    rule scope ms (.bind outer (.bind inner body)) = rule scope ms (.bind (outer.extend inner.path) body) := by
  have hpath : (outer.extend inner.path).path = outer.path ++ inner.path := rfl
  rw [rule, rule, rule, hpath, Path.firstExpansion?_append]
  cases houter : Path.firstExpansion? outer.path with
  | some cut => simp only [Option.some_or, Path.take_of_firstExpansion? houter]
  | none =>
    cases Path.firstExpansion? inner.path with
    | some cut =>
      simp only [Option.none_or, Option.map_some, Nat.add_comm cut, List.take_length_add_append, Member.extend_append]
    | none => simp only [Option.none_or, Option.map_none, Member.extend_append]

namespace Rule

theorem eval_joined (c : Chain) (outer : Member) {inner : Member} (body : Rule) (h : inner.names = []) :
    eval c (.bind outer (.bind inner body)) = eval c (.bind (outer.extend inner.path) body) := by
  funext cur scope
  have hinner : eval c (.bind inner body) = c.descend (eval c body) inner.path := by
    funext cur scope
    rw [eval, Member.adoptNames_of_nameless h]
  have hnames : scope.adoptNames (outer.extend inner.path) = scope.adoptNames outer := rfl
  have hpath : (outer.extend inner.path).path = outer.path ++ inner.path := rfl
  rw [eval, eval, hinner, hnames, hpath, Chain.descend_append]

/-- The rules are evaluated alike and read the same. -/
structure Equates (c : Chain) (r r' : Rule) : Prop where
  eval : r.eval c = r'.eval c
  mentions : ∀ scope ms, Mentions.rule scope ms r = Mentions.rule scope ms r'

variable {c : Chain} {rs rs' : List Rule}

theorem evals_of_equates (h : List.Forall₂ (Equates c) rs rs') : evals c rs = evals c rs' := by
  induction h with
  | nil => rfl
  | cons hr _ ih => rw [evals, evals, hr.eval, ih]

theorem mentions_of_equates (h : List.Forall₂ (Equates c) rs rs') (scope : Member) (ms : Mentions) :
    Mentions.rules scope ms rs = Mentions.rules scope ms rs' := by
  induction h generalizing ms with
  | nil => rfl
  | cons hr _ ih => rw [Mentions.rules, Mentions.rules, hr.mentions, ih]

theorem congruent_equates (c : Chain) [c.HandlerFree] : Congruent (Equates c) where
  equivalence :=
    { refl := fun _ => ⟨rfl, fun _ _ => rfl⟩
      symm := fun h => ⟨h.eval.symm, fun scope ms => (h.mentions scope ms).symm⟩
      trans := fun h h' => ⟨h.eval.trans h'.eval, fun scope ms => (h.mentions scope ms).trans (h'.mentions scope ms)⟩ }
  bind m r r' h := by
    refine ⟨funext fun cur => funext fun scope => ?_, fun scope ms => ?_⟩
    · rw [Rule.eval, Rule.eval, h.eval]
    · rw [Mentions.rule, Mentions.rule]
      split
      · rfl
      · exact h.mentions _ _
  group k rs rs' h := by
    refine ⟨funext fun cur => funext fun scope => ?_, mentions_of_equates h⟩
    rw [Rule.eval, Rule.eval, evals_of_equates h]
    exact Chain.aroundThrough_group (mentions_of_equates h scope .empty) Chain.HandlerFree.isHandler_eq cur _
  elements e rs rs' h := by
    refine ⟨funext fun cur => funext fun scope => ?_, fun _ _ => rfl⟩
    rw [Rule.eval, Rule.eval, evals_of_equates h]
  explain message r r' h := by
    refine ⟨funext fun cur => funext fun scope => ?_, h.mentions⟩
    rw [Rule.eval, Rule.eval, h.eval]

theorem eval_rewritten (c : Chain) [c.HandlerFree] {r r' : Rule} (h : r.Rewrites Joins r') : r.eval c = r'.eval c := by
  refine ((congruent_equates c).of_rewrites (fun r r' hjoin => ?_) h).eval
  obtain ⟨outer, body, hinner⟩ := hjoin
  exact ⟨eval_joined c outer body hinner, Mentions.rule_joined outer _ body⟩

end Rule

namespace Validator

variable (v : Validator)

theorem run_rewritten {r : Rule} (h : v.rule.Rewrites Rule.Joins r) (o : Object) (f : Filter) :
    ({ v with rule := r } : Validator).run o f = v.run o f := by
  have heval : (v.chain f).evaluate r o = (v.chain f).evaluate v.rule o := by
    rw [Chain.evaluate, Chain.evaluate, Rule.eval_rewritten (v.chain f) h]
  have hchain : ({ v with rule := r } : Validator).chain f = v.chain f := rfl
  rw [run, run, hchain, heval]

/-- Joining bindings anywhere in a rule, or taking them apart, leaves the outcome of every kind of pass
as it is. -/
theorem outcomes_joined {r : Rule} (h : v.rule.Rewrites Rule.Joins r) (o : Object) :
    let w : Validator := { v with rule := r }
    w.validate o = v.validate o ∧
    (∀ m, w.validateMember o m = v.validateMember o m) ∧
    (∀ m candidate, w.prevalidate o m candidate = v.prevalidate o m candidate) ∧
    ∀ m candidate, w.prevalidateStrict o m candidate = v.prevalidateStrict o m candidate :=
  ⟨v.run_rewritten h o _, fun _ => v.run_rewritten h o _, fun _ _ => v.run_rewritten h o _,
    fun _ _ => v.run_rewritten h o _⟩

/-- Three bindings below a negation become one that keeps the name of the outermost. -/
theorem outcomes_joined_orders :
    let positive : Rule := .condition (.compare .gt) (.value (.int 0))
    let orders : Member := Member.named { path := [.name "orders", .expand (.each .all)] } "orders" .empty
    let parts : List Rule := [.bind orders (.bind { path := [.name "items"] }
      (.bind { path := [.expand (.each .any), .name "price"] } positive))]
    let whole : List Rule := [.bind (orders.extend [.name "items", .expand (.each .any), .name "price"]) positive]
    let v : Validator := { rule := .group .not parts, terms := { settings := { existence := .abort } } }
    let w : Validator := { v with rule := .group .not whole }
    let o : Object := .json (.object [("orders", .list [.object [("items", .list [.object [("price", .int 3)]])]])])
    v.rule.Rewrites Rule.Joins w.rule ∧ w.validate o = v.validate o ∧
    (w.validate o).status = .fail ∧ (w.validate o).failed = ["orders.0.items.0.price"] := by
  intro positive orders parts whole v w o
  have hrewrites : v.rule.Rewrites Rule.Joins w.rule :=
    .trans _ _ _ (.rel _ _ (.group .not [] [] (.here (.join orders _ rfl))))
      (.rel _ _ (.group .not [] [] (.here (.join (orders.extend [.name "items"]) positive rfl))))
  have hv : (v.validate o).status = .fail ∧ (v.validate o).failed = ["orders.0.items.0.price"] := by decide
  have h : w.validate o = v.validate o := (v.outcomes_joined hrewrites o).1
  rw [h]
  exact ⟨hrewrites, rfl, hv⟩

end Validator

end Conform
