import Conform.Proofs.Elements

/-!
# Rules in place

`Rule.plan` puts a rule in its place: every leaf and every demand on elements carries the member
that it is about, and bindings and paths are gone. Evaluating a rule is running its plan
(`Rule.eval_eq_run`), so that a property of all passes is proved by induction over four kinds of
nodes.
-/

namespace Conform

/-- A rule at a place. -/
inductive Plan where
  | ask (l : Leaf)
  /-- The answers of the plans, combined. -/
  | connect (k : Connective) (plans : List Plan)
  /-- A plan inside a branch. -/
  | within (b : Branch) (body : Plan)
  /-- A plan for each element of a container. -/
  | forEach (container : Member) (e : Expansion) (body : Member → Plan)

namespace Plan

/-- Induction that also reaches the plans of a connective. -/
@[elab_as_elim, induction_eliminator]
theorem ind {motive : Plan → Prop} (ask : ∀ l, motive (.ask l))
    (connect : ∀ k plans, (∀ p ∈ plans, motive p) → motive (.connect k plans))
    (within : ∀ b body, motive body → motive (.within b body))
    (forEach : ∀ container e body, (∀ m, motive (body m)) → motive (.forEach container e body)) :
    ∀ p, motive p :=
  @Plan.rec motive (fun plans => ∀ p ∈ plans, motive p) ask connect within forEach
    (fun _ hp => absurd hp List.not_mem_nil)
    fun _ _ hhead htail p hp => (List.mem_cons.1 hp).elim (· ▸ hhead) (htail p)

/-! ### Running -/

mutual

def run (c : Chain) : Plan → Cursor → Pass Status
  | ask l, cur => c.ask cur l
  | connect k plans, cur => Chain.connect k (runs c plans cur)
  | within b body, cur => c.around cur b (run c body)
  | forEach container e body, cur =>
    c.demand e.quantifier container e (fun cur scope => run c (body scope) cur) cur

def runs (c : Chain) : List Plan → Cursor → List (Pass Status)
  | [], _ => []
  | p :: ps, cur => run c p cur :: runs c ps cur

end

theorem runs_eq_map (c : Chain) (plans : List Plan) (cur : Cursor) :
    runs c plans cur = plans.map (run c · cur) := by
  induction plans with
  | nil => rfl
  | cons p ps ih => rw [runs, ih, List.map_cons]

/-- The plan at the end of a path; each expansion on the way is a demand on elements. -/
def along (body : Member → Plan) : Path → Member → Plan
  | [], scope => body scope
  | .expand e :: rest, scope => forEach scope e (along body rest)
  | k :: rest, scope => along body rest (scope.extend [k])

/-- Along a path there are only demands and steps to a member. -/
@[elab_as_elim]
theorem along_ind {motive : (Member → Plan) → Prop} {body : Member → Plan} {path : Path} (here : motive body)
    (forEach : ∀ e, .expand e ∈ path → ∀ body, motive body → motive (.forEach · e body))
    (extend : ∀ k, Path.Concrete [k] → ∀ body, motive body → motive fun scope => body (scope.extend [k])) :
    motive (along body path) := by
  induction path with
  | nil => exact here
  | cons k path ih =>
    have hrest : motive (along body path) := ih fun e he => forEach e (List.mem_cons_of_mem _ he)
    cases k with
    | expand e => exact forEach e (List.mem_cons_self ..) _ hrest
    | name | index | property => exact extend _ (List.forall_mem_singleton.2 rfl) _ hrest

theorem run_along (c : Chain) (body : Member → Plan) (path : Path) (cur : Cursor) (scope : Member) :
    (along body path scope).run c cur = c.descend (fun cur scope => (body scope).run c cur) path cur scope := by
  induction path generalizing cur scope with
  | nil => rfl
  | cons k path ih =>
    cases k with
    | expand e =>
      rw [along, run, Chain.descend]
      exact congrArg (c.demand _ scope e · cur) (funext fun cur => funext fun scope => ih cur scope)
    | name | index | property => exact ih cur _

theorem along_append {body : Member → Plan} {path : Path} (h : path.Concrete) (rest : Path) (scope : Member) :
    along body (path ++ rest) scope = along body rest (scope.extend path) := by
  induction path generalizing scope with
  | nil => rw [Member.extend_nil, List.nil_append]
  | cons k path ih =>
    obtain ⟨hk, hpath⟩ := List.forall_mem_cons.1 h
    have hextend : scope.extend (k :: path) = (scope.extend [k]).extend path := scope.extend_append [k] path
    cases k with
    | expand e => cases hk
    | name | index | property => rw [hextend]; exact ih hpath _

theorem along_concrete {body : Member → Plan} {path : Path} (h : path.Concrete) (scope : Member) :
    along body path scope = body (scope.extend path) := by
  rw [← path.append_nil, along_append h, along, List.append_nil]

end Plan

namespace Rule

mutual

def plan : Rule → Member → Plan
  | condition op operand, scope => .ask (.compare scope none op operand)
  | property p op operand, scope => .ask (.compare scope (some p) op operand)
  | presence expected, scope => .ask (.presence scope.splitProperty.1 scope.splitProperty.2 expected)
  | bind m body, scope => .along (plan body) m.path (scope.adoptNames m)
  | group k rules, scope => .within (.group k scope rules) (.connect k (plans rules scope))
  | elements e rules, scope => .forEach scope e fun scope => .connect .and (plans rules scope)
  | explain message body, scope => .within (.explained scope message) (plan body scope)

def plans : List Rule → Member → List Plan
  | [], _ => []
  | r :: rs, scope => plan r scope :: plans rs scope

end

mutual

/-- Evaluating a rule is running its plan. -/
theorem eval_eq_run (c : Chain) : ∀ (r : Rule) (cur : Cursor) (scope : Member),
    r.eval c cur scope = (r.plan scope).run c cur
  | condition .., _, _ | property .., _, _ | presence _, _, _ => by rw [eval, plan, Plan.run]
  | bind m body, cur, scope => by
    rw [eval, plan, Plan.run_along]
    exact congrArg (c.descend · m.path cur _) (funext fun cur => funext fun scope => eval_eq_run c body cur scope)
  | group k rules, cur, scope => by
    rw [eval, plan, Plan.run]
    refine congrArg (c.around cur _) (funext fun cur => ?_)
    rw [Plan.run, evals_eq_runs c rules cur scope]
  | elements e rules, cur, scope => by
    rw [eval, plan, Plan.run]
    refine congrArg (c.demand _ scope e · cur) (funext fun cur => funext fun scope => ?_)
    rw [Plan.run, evals_eq_runs c rules cur scope]; rfl
  | explain message body, cur, scope => by
    rw [eval, plan, Plan.run]
    exact congrArg (c.around cur _) (funext fun cur => eval_eq_run c body cur scope)

theorem evals_eq_runs (c : Chain) : ∀ (rs : List Rule) (cur : Cursor) (scope : Member),
    (evals c rs).map (fun run => run cur scope) = Plan.runs c (plans rs scope) cur
  | [], _, _ => rfl
  | r :: rs, cur, scope => by
    rw [evals, plans, Plan.runs, List.map_cons, eval_eq_run c r cur scope, evals_eq_runs c rs cur scope]

end

end Rule

end Conform
