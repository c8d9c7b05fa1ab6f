import Conform.Proofs.Plan

/-!
# What a rule demands

`Plan.demands` lists the places from which a rule expands. A write settles a demand if it moves
none of the places that the expansion leads to (`Terms.Settled`), and the rule is steady under the
write if all its demands are settled. `Plan.Below` is what else a rule needs for its answers before
and after a write to be compared.
-/

namespace Conform

/-! ### Rules about what lies below -/

/-- The operand does not depend on the validated object. -/
def Operand.isFixed : Operand → Bool
  | value _ | sample _ => true
  | member _ => false

namespace Leaf

def isFixed : Leaf → Bool
  | check _ k => k.operand.isFixed
  | presence .. => true

def path (l : Leaf) : Path :=
  l.member.path ++ (l.property?.map Key.property).toList

end Leaf

namespace Rule

mutual

/-- Whether a rule and all rules inside it are as asked. -/
def everywhere (ok : Rule → Bool) : Rule → Bool
  | condition op operand => ok (condition op operand)
  | property p op operand => ok (property p op operand)
  | presence expected => ok (presence expected)
  | bind m body => ok (bind m body) && everywhere ok body
  | group k rules => ok (group k rules) && everywhereIn ok rules
  | elements e rules => ok (elements e rules) && everywhereIn ok rules
  | explain message body => ok (explain message body) && everywhere ok body

def everywhereIn (ok : Rule → Bool) : List Rule → Bool
  | [] => true
  | r :: rs => everywhere ok r && everywhereIn ok rs

end

def hasFixedOperand : Rule → Bool
  | condition _ operand | property _ _ operand => operand.isFixed
  | _ => true

def isAsserted : Rule → Bool
  | group .not _ => false
  | _ => true

/-- No comparison is with another member. -/
def isFixed : Rule → Bool :=
  everywhere hasFixedOperand

/-- Nothing is negated. -/
def isPositive : Rule → Bool :=
  everywhere isAsserted

end Rule

namespace Plan

/-- Everything that a plan is about lies at or below a place, no leaf reads another member, and
under a policy by which a missing member fails nothing is negated. -/
inductive Below (e : Existence) : Path → Plan → Prop
  | ask {p : Path} {l : Leaf} (hp : p <+: l.path) (hl : l.isFixed = true) : Below e p (.ask l)
  | connect {p : Path} {k : Connective} {plans : List Plan} (h : ∀ q ∈ plans, Below e p q) :
    Below e p (.connect k plans)
  | within {p : Path} {b : Branch} {body : Plan} (hb : e = .abort → b.frame ≠ .not)
    (hplain : ∀ q container, b ≠ .elements q container) (h : Below e p body) : Below e p (.within b body)
  | forEach {p : Path} {container : Member} {x : Expansion} {body : Member → Plan} (hp : p <+: container.path)
    (h : ∀ s d, Below e (container.path ++ s) (body (container.element s d))) :
    Below e p (.forEach container x body)

variable {e : Existence} {p q : Path} {plan : Plan}

theorem Below.mono (h : Below e p plan) (hq : q <+: p) : Below e q plan := by
  induction h with
  | ask hp hl => exact .ask (hq.trans hp) hl
  | connect _ ih => exact .connect fun r hr => ih r hr hq
  | within hb hplain _ ih => exact .within hb hplain (ih hq)
  | forEach hp h => exact .forEach (hq.trans hp) h

theorem below_along {body : Member → Plan} (hbody : ∀ scope, Below e scope.path (body scope)) (path : Path) :
    ∀ scope, Below e scope.path (along body path scope) := by
  refine along_ind hbody ?_ ?_
  · intro x hx body ih scope
    exact .forEach List.prefix_rfl fun s d => ih (scope.element s d)
  · intro k hk body ih scope
    exact (ih (scope.extend [k])).mono (List.prefix_append ..)

end Plan

theorem Leaf.prefix_path_compare (scope : Member) (p? : Option Property) (op : Operator) (operand : Operand) :
    scope.path <+: (compare scope p? op operand).path :=
  ⟨_, congrArg (· ++ _) (path_member_compare scope p? op operand).symm⟩

theorem Leaf.isFixed_compare (scope : Member) (p? : Option Property) (op : Operator) (operand : Operand) :
    (compare scope p? op operand).isFixed = operand.isFixed := by
  cases operand with
  | value v =>
    unfold compare
    cases scope.isRoot <;> rfl
  | member m => rfl
  | sample o => rfl

namespace Rule
variable {e : Existence}

mutual

theorem below_plan : ∀ {r : Rule} (scope : Member), r.isFixed = true → (e = .abort → r.isPositive = true) →
    Plan.Below e scope.path (r.plan scope)
  | condition op operand, scope, hf, _ | property p op operand, scope, hf, _ =>
    .ask (Leaf.prefix_path_compare ..) ((Leaf.isFixed_compare ..).trans hf)
  | presence expected, scope, _, _ => .ask (Member.splitProperty_join scope ▸ List.prefix_rfl) rfl
  | bind m body, scope, hf, hp => by
    simp only [isFixed, isPositive, everywhere, Bool.and_eq_true] at hf hp
    exact Plan.below_along (fun scope => below_plan scope hf.2 fun he => (hp he).2) m.path (scope.adoptNames m)
  | group k rules, scope, hf, hp => by
    simp only [isFixed, isPositive, everywhere, Bool.and_eq_true] at hf hp
    refine .within (fun he hframe => ?_) (by simp) (.connect (below_plans scope hf.2 fun he => (hp he).2))
    cases k with
    | and | or => cases hframe
    | not => exact absurd (hp he).1 Bool.false_ne_true
  | elements x rules, scope, hf, hp => by
    simp only [isFixed, isPositive, everywhere, Bool.and_eq_true] at hf hp
    exact .forEach List.prefix_rfl fun s d =>
      .connect (below_plans (scope.element s d) hf.2 fun he => (hp he).2)
  | explain message body, scope, hf, hp => by
    simp only [isFixed, isPositive, everywhere, Bool.and_eq_true] at hf hp
    exact .within (by simp [Branch.frame]) (by simp) (below_plan scope hf.2 fun he => (hp he).2)

theorem below_plans : ∀ {rs : List Rule} (scope : Member), everywhereIn hasFixedOperand rs = true →
    (e = .abort → everywhereIn isAsserted rs = true) → ∀ q ∈ plans rs scope, Plan.Below e scope.path q
  | [], _, _, _, _, hq => absurd hq List.not_mem_nil
  | r :: rs, scope, hf, hp, q, hq => by
    simp only [everywhereIn, Bool.and_eq_true] at hf hp
    rcases List.mem_cons.1 hq with rfl | hq
    · exact below_plan scope hf.1 fun he => (hp he).1
    · exact below_plans scope hf.2 (fun he => (hp he).2) q hq

end

end Rule

/-! ### What a rule demands -/

namespace Plan

mutual

/-- The places of `o` from which a plan expands, and how, whatever the elements answer. -/
def demands (t : Terms) (o : Object) : Plan → List (Path × Expansion)
  | ask _ => []
  | connect _ plans => demandsOf t o plans
  | within _ body => demands t o body
  | forEach container e body =>
    (container.path, e) :: ((t.found? o container.path e).getD []).flatMap fun x =>
      demands t o (body (container.element x.1 e.display?))

def demandsOf (t : Terms) (o : Object) : List Plan → List (Path × Expansion)
  | [] => []
  | p :: ps => demands t o p ++ demandsOf t o ps

end

variable {t : Terms} {o : Object} {d : Path × Expansion}

theorem mem_demandsOf {plans : List Plan} : d ∈ demandsOf t o plans ↔ ∃ q ∈ plans, d ∈ q.demands t o := by
  induction plans with
  | nil => simp [demandsOf]
  | cons p ps ih => simp [demandsOf, ih]

theorem mem_demands_forEach {container : Member} {e : Expansion} {body : Member → Plan} :
    d ∈ (forEach container e body).demands t o ↔ d = (container.path, e) ∨
      ∃ x ∈ (t.found? o container.path e).getD [], d ∈ (body (container.element x.1 e.display?)).demands t o := by
  rw [demands, List.mem_cons, List.mem_flatMap]

end Plan

/-- Outside of `m`, an expansion leads to the same places before and after a write at `m`, and to
none inside `m`. -/
def Terms.Settled (t : Terms) (before after : Object) (m p : Path) (e : Expansion) : Prop :=
  m <+: p ∨ (t.found? before p e).map (·.map Prod.fst) = (t.found? after p e).map (·.map Prod.fst) ∧
    ∀ x ∈ (t.found? after p e).getD [], m <+: p ++ x.1 → p ++ x.1 = m

/-- A write at `m` does not move the elements that a rule demands. -/
def Rule.Steady (r : Rule) (t : Terms) (before after : Object) (m : Path) : Prop :=
  ∀ d ∈ (r.plan .root).demands t after, t.Settled before after m d.1 d.2

end Conform
