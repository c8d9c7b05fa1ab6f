import Conform.Proofs.Demands
import Conform.Proofs.Reach

/-!
# What holds throughout a plan

`Plan.Everywhere` says something of a plan and of all plans inside it, so also of whatever a pass
comes to (`Plan.Everywhere.of_reaches`). What carries over from the parts of a rule to the rule is so for
its plan (`Rule.carried_plan`), and so is what holds for all of its nodes (`Rule.everywhere_plan`): one
without negations negates nothing, and one without expansions makes no demands on elements.
-/

namespace Conform

namespace Plan

def isDemand : Plan → Bool
  | forEach .. => true
  | _ => false

def isTree : Plan → Bool
  | forEach _ e _ => e.isTree
  | _ => false

/-- Something holds of a plan and of all plans inside it. -/
inductive Everywhere (ok : Plan → Prop) : Plan → Prop
  | ask {l : Leaf} (h : ok (.ask l)) : Everywhere ok (.ask l)
  | connect {k : Connective} {plans : List Plan} (h : ok (.connect k plans)) (hplans : ∀ p ∈ plans, Everywhere ok p) :
    Everywhere ok (.connect k plans)
  | within {b : Branch} {body : Plan} (h : ok (.within b body)) (hbody : Everywhere ok body) :
    Everywhere ok (.within b body)
  | forEach {container : Member} {e : Expansion} {body : Member → Plan} (h : ok (.forEach container e body))
    (hbody : ∀ scope, Everywhere ok (body scope)) : Everywhere ok (.forEach container e body)

variable {ok : Plan → Prop} {c : Chain} {p q : Plan} {cur cur' : Cursor}

theorem Everywhere.self (h : Everywhere ok p) : ok p := by
  cases h <;> assumption

theorem everywhere_ask_iff {l : Leaf} : (ask l).Everywhere ok ↔ ok (.ask l) :=
  ⟨Everywhere.self, .ask⟩

theorem everywhere_connect_iff {k : Connective} {plans : List Plan} :
    (connect k plans).Everywhere ok ↔ ok (.connect k plans) ∧ ∀ p ∈ plans, p.Everywhere ok :=
  ⟨fun h => by cases h with | connect h hplans => exact ⟨h, hplans⟩, fun h => .connect h.1 h.2⟩

theorem everywhere_within_iff {b : Branch} {body : Plan} :
    (within b body).Everywhere ok ↔ ok (.within b body) ∧ body.Everywhere ok :=
  ⟨fun h => by cases h with | within h hbody => exact ⟨h, hbody⟩, fun h => .within h.1 h.2⟩

theorem Everywhere.of_reaches (h : Everywhere ok p) (hq : p.Reaches c cur q cur') : Everywhere ok q := by
  induction hq with
  | refl => exact h
  | connect hp _ ih => cases h with | connect _ hplans => exact ih (hplans _ (mem_of_mem_upTo hp))
  | within _ _ ih => cases h with | within _ hbody => exact ih hbody
  | forEach _ _ _ _ ih => cases h with | forEach _ hbody => exact ih (hbody _)

theorem Everywhere.of_mem_demands {t : Terms} {o : Object} {d : Path × Expansion} (h : Everywhere ok p)
    (hd : d ∈ p.demands t o) : ∃ container body, d.1 = container.path ∧ ok (.forEach container d.2 body) := by
  induction h with
  | ask => cases hd
  | connect _ _ ih =>
    obtain ⟨q, hq, hd⟩ := mem_demandsOf.1 hd
    exact ih q hq hd
  | within _ _ ih => exact ih hd
  | @forEach container e body h _ ih =>
    rcases mem_demands_forEach.1 hd with rfl | ⟨x, -, hd⟩
    · exact ⟨container, body, rfl, h⟩
    · exact ih _ hd

end Plan

namespace Rule
variable {ok : Rule → Bool} {good : Plan → Prop}

theorem everywhereIn_iff {rs : List Rule} : everywhereIn ok rs = true ↔ ∀ r ∈ rs, r.everywhere ok = true := by
  induction rs with
  | nil => simp [everywhereIn]
  | cons r rs ih => simp [everywhereIn, ih]

/-- Something is so of the leaves of rules and, where it is so of the parts of a rule, of the rule. -/
structure Carries (ok : Rule → Bool) (good : Plan → Prop) : Prop where
  condition : ∀ {op operand}, ok (.condition op operand) = true → ∀ scope, good (.ask (.compare scope none op operand))
  property : ∀ {p op operand}, ok (.property p op operand) = true →
    ∀ scope, good (.ask (.compare scope (some p) op operand))
  presence : ∀ {expected}, ok (.presence expected) = true → ∀ m p?, good (.ask (.presence m p? expected))
  bind : ∀ {m body}, ok (.bind m body) = true →
    ∀ e, .expand e ∈ m.path → ∀ inner, (∀ scope, good (inner scope)) → ∀ container, good (.forEach container e inner)
  group : ∀ {k rules}, ok (.group k rules) = true →
    ∀ scope, (∀ p ∈ plans rules scope, good p) → good (.within (.group k scope rules) (.connect k (plans rules scope)))
  elements : ∀ {e rules}, ok (.elements e rules) = true → (∀ scope, ∀ p ∈ plans rules scope, good p) →
    ∀ container, good (.forEach container e fun scope => .connect .and (plans rules scope))
  explain : ∀ {message body}, ok (.explain message body) = true →
    ∀ scope, good (body.plan scope) → good (.within (.explained scope message) (body.plan scope))

mutual

/-- What carries over from part to part is so of the whole plan. -/
theorem carried_plan (hc : Carries ok good) : ∀ (r : Rule) (scope : Member), r.everywhere ok = true → good (r.plan scope)
  | condition .., scope, h => hc.condition h scope
  | property .., scope, h => hc.property h scope
  | presence _, _, h => hc.presence h ..
  | bind m body, scope, h => by
    rw [everywhere, Bool.and_eq_true] at h
    have hbody : ∀ scope, good (body.plan scope) := fun scope => carried_plan hc body scope h.2
    exact Plan.along_ind (motive := fun inner => ∀ scope, good (inner scope)) hbody (hc.bind h.1)
      (fun k _ inner hinner scope => hinner (scope.extend [k])) (scope.adoptNames m)
  | group k rules, scope, h => by
    rw [everywhere, Bool.and_eq_true] at h
    exact hc.group h.1 scope (carried_plans hc rules scope h.2)
  | elements e rules, scope, h => by
    rw [everywhere, Bool.and_eq_true] at h
    exact hc.elements h.1 (fun scope => carried_plans hc rules scope h.2) scope
  | explain message body, scope, h => by
    rw [everywhere, Bool.and_eq_true] at h
    exact hc.explain h.1 scope (carried_plan hc body scope h.2)

theorem carried_plans (hc : Carries ok good) : ∀ (rs : List Rule) (scope : Member), everywhereIn ok rs = true →
    ∀ p ∈ plans rs scope, good p
  | [], _, _, _, hp => absurd hp List.not_mem_nil
  | r :: rs, scope, h, p, hp => by
    rw [everywhereIn, Bool.and_eq_true] at h
    rcases List.mem_cons.1 hp with rfl | hp
    · exact carried_plan hc r scope h.1
    · exact carried_plans hc rs scope h.2 p hp

end

/-- What the nodes of a rule are decides what the nodes of its plan are. -/
structure Shapes (ok : Rule → Bool) (good : Plan → Prop) : Prop where
  ask : ∀ l, good (.ask l)
  bind : ∀ {m body}, ok (.bind m body) = true →
    ∀ e, .expand e ∈ m.path → ∀ container body, good (.forEach container e body)
  group : ∀ {k rules}, ok (.group k rules) = true → ∀ scope plans,
    good (.within (.group k scope rules) (.connect k plans)) ∧ good (.connect k plans)
  elements : ∀ {e rules}, ok (.elements e rules) = true → ∀ container body, good (.forEach container e body)
  together : ∀ plans, good (.connect .and plans)
  explain : ∀ scope message body, good (.within (.explained scope message) body)

theorem Shapes.carries (hs : Shapes ok good) : Carries ok (Plan.Everywhere good) where
  condition _ _ := .ask (hs.ask _)
  property _ _ := .ask (hs.ask _)
  presence _ _ _ := .ask (hs.ask _)
  bind h e he _ hinner container := .forEach (hs.bind h e he container _) hinner
  group h scope hplans := .within (hs.group h scope _).1 (.connect (hs.group h scope _).2 hplans)
  elements h hplans container := .forEach (hs.elements h container _) fun scope => .connect (hs.together _) (hplans scope)
  explain _ scope hbody := .within (hs.explain scope _ _) hbody

theorem everywhere_plan (hs : Shapes ok good) {r : Rule} (scope : Member) (h : r.everywhere ok = true) :
    (r.plan scope).Everywhere good :=
  carried_plan hs.carries r scope h

theorem everywhere_plans (hs : Shapes ok good) {rs : List Rule} (scope : Member) (h : everywhereIn ok rs = true) :
    ∀ p ∈ plans rs scope, p.Everywhere good :=
  carried_plans hs.carries rs scope h

end Rule

/-! ### Rules without negations, rules without expansions -/

namespace Rule

/-- The rule itself does not fan out. -/
def staysHere : Rule → Bool
  | elements .. => false
  | bind m _ => decide m.path.Concrete
  | _ => true

/-- No rule in it fans out. -/
def isLocal : Rule → Bool :=
  everywhere staysHere

/-- The rule itself does not fan out further than one step. -/
def stepsOnce : Rule → Bool
  | elements e _ => !e.isTree
  | bind m _ => m.path.all fun k => !(k.expansion?.any Expansion.isTree)
  | _ => true

theorem shapes_isAsserted : Shapes isAsserted (·.negates = false) where
  ask _ := rfl
  bind _ _ _ _ _ := rfl
  group := by
    intro k rules hk scope plans
    cases k with
    | and | or => exact ⟨rfl, rfl⟩
    | not => cases hk
  elements _ _ _ := rfl
  together _ := rfl
  explain _ _ _ := rfl

theorem shapes_staysHere : Shapes staysHere (·.isDemand = false) where
  ask _ := rfl
  bind := by
    intro m body hm e he
    cases of_decide_eq_true hm _ he
  group _ _ _ := ⟨rfl, rfl⟩
  elements := nofun
  together _ := rfl
  explain _ _ _ := rfl

theorem shapes_stepsOnce : Shapes stepsOnce (·.isTree = false) where
  ask _ := rfl
  bind := by
    intro m body hm e he container body
    exact (Bool.not_eq_true' _).mp (List.all_eq_true.1 hm _ he)
  group _ _ _ := ⟨rfl, rfl⟩
  elements := by
    intro e rules he container body
    exact (Bool.not_eq_true' _).mp he
  together _ := rfl
  explain _ _ _ := rfl

end Rule

end Conform
