import Conform.Proofs.Presentation
import Conform.Proofs.Truth

/-!
# Negations moved inside

Where a missing member is no failure and a demand on every element of an empty container does not
apply, a negation goes through a rule: two of them cancel, a conjunction becomes a disjunction of
negations, and a path with expansions becomes its dual, in which each quantifier is the other one
(`Validator.answers_not`). The dual leads to the same elements (`Registry.found?_dual`), and folding the
opposite answers with the other quantifier gives the opposite answer (`Quantifier.negate_fold`).
-/

namespace Conform

/-! ### Paths with the other quantifiers -/

def Quantifier.dual : Quantifier → Quantifier
  | all => any
  | any => all

mutual

/-- The key with each quantifier changed to the other one, also in the children of a tree. -/
def Key.dual : Key → Key
  | .expand e => .expand (Expansion.dual e)
  | k => k

def Expansion.dual : Expansion → Expansion
  | .each q => .each q.dual
  | .tree q children depth? => .tree q.dual (Key.dual children) depth?
  | .variadic q count => .variadic q.dual count

end

def Path.dual (p : Path) : Path :=
  p.map Key.dual

def Member.dual (m : Member) : Member :=
  { m with path := m.path.dual, display? := m.display?.map Path.dual }

theorem Key.dual_eq_self {k : Key} (h : k.isExpansion = false) : k.dual = k := by
  cases k with
  | expand => cases h
  | name | index | property => rw [dual]; exact nofun

theorem Expansion.quantifier_dual (e : Expansion) : e.dual.quantifier = e.quantifier.dual := by
  cases e <;> rfl

theorem Object.nodes_dual (children : Key) (levels : Nat) (p : Path) (o : Object) :
    o.nodes children.dual levels p = o.nodes children levels p := by
  cases hk : children.isExpansion with
  | false => rw [Key.dual_eq_self hk]
  | true =>
    cases children with
    | name | index | property => cases hk
    | expand e => rw [Key.dual, nodes_expand, nodes_expand]

theorem Registry.found?_dual (r : Registry) (depth? : Option Nat) (o : Object) (e : Expansion) :
    r.found? depth? o e.dual = r.found? depth? o e := by
  cases e with
  | each | variadic => rfl
  | tree q children own? => rw [Expansion.dual, found?, found?, Object.nodes_dual]

theorem Cursor.found?_dual (cur : Cursor) (t : Terms) (p : Path) (e : Expansion) :
    cur.found? t p e.dual = cur.found? t p e := by
  simp only [found?, Registry.found?_dual]

/-! ### Opposite answers, folded -/

namespace Status

theorem allOf_singleton (s : Status) : allOf [s] = s := by
  cases s <;> rfl

theorem any_map_negate (s : Status) (statuses : List Status) :
    (statuses.map negate).any (· == s) = statuses.any (· == s.negate) := by
  rw [List.any_map]
  refine congrArg statuses.any (funext fun t => ?_)
  cases s <;> cases t <;> rfl

theorem negate_allOf {statuses : List Status} (h : statuses ≠ []) :
    (allOf statuses).negate = anyOf (statuses.map negate) := by
  rw [allOf_eq h, anyOf_eq (List.map_eq_nil_iff.not.2 h), any_map_negate, any_map_negate, apply_ite negate,
    apply_ite negate]
  rfl

theorem negate_anyOf {statuses : List Status} (h : statuses ≠ []) :
    (anyOf statuses).negate = allOf (statuses.map negate) := by
  have hback : (statuses.map negate).map negate = statuses := by
    rw [List.map_map, List.map_congr_left (g := id) fun s _ => s.negate_negate, List.map_id]
  have hne : statuses.map negate ≠ [] := List.map_eq_nil_iff.not.2 h
  rw [← negate_negate (allOf _), negate_allOf hne, hback]

end Status

/-- The other quantifier gives the opposite answer for the opposite answers. -/
theorem Quantifier.negate_fold (q : Quantifier) (statuses : List Status) :
    (q.fold .ignore statuses).negate = q.dual.fold .ignore (statuses.map Status.negate) := by
  rw [fold_ignore, fold_ignore]
  by_cases h : statuses = []
  · rw [if_pos h, if_pos (List.map_eq_nil_iff.2 h)]; rfl
  · rw [if_neg h, if_neg (List.map_eq_nil_iff.not.2 h)]
    cases q with
    | all => exact Status.negate_allOf h
    | any => exact Status.negate_anyOf h

/-! ### Plans -/

namespace Rule

theorem plans_eq_map (rs : List Rule) (scope : Member) : plans rs scope = rs.map (plan · scope) := by
  induction rs with
  | nil => rfl
  | cons r rs ih => rw [plans, ih, List.map_cons]

/-- The rules give the same answer from every cursor and for every scope, whatever has been recorded. -/
def AnswersAs (c : Chain) (r r' : Rule) : Prop :=
  ∀ cur scope rec rec', ((r.eval c cur scope).run rec).1 = ((r'.eval c cur scope).run rec').1

theorem answersAs_iff {c : Chain} {r r' : Rule} :
    r.AnswersAs c r' ↔ ∀ cur scope, (r.plan scope).verdict c cur = (r'.plan scope).verdict c cur := by
  have hanswer : ∀ (r : Rule) cur scope rec, ((r.eval c cur scope).run rec).1 = (r.plan scope).verdict c cur := by
    intro r cur scope rec
    rw [eval_eq_run]
    exact (r.plan scope).blind_run c cur rec
  constructor
  · intro h cur scope
    rw [← hanswer r cur scope default, h cur scope default default, hanswer]
  · intro h cur scope rec rec'
    rw [hanswer, hanswer, h]

end Rule

namespace Plan
variable {c : Chain} {policy : Existence} {body body' : Member → Plan}

/-- At each place one plan gives the opposite answer of the other. -/
def Opposes (c : Chain) (body body' : Member → Plan) : Prop :=
  ∀ scope scope', scope.path = scope'.path → ∀ cur, (body' scope').verdict c cur = ((body scope).verdict c cur).negate

theorem opposes_forEach (h : c.IsWhole policy) (hpolicy : policy ≠ .abort) (e : Expansion) (hbody : Opposes c body body') :
    Opposes c (forEach · e body) (forEach · e.dual body') := by
  intro container container' hpath cur
  have hfound : cur.found? c.terms container'.path e.dual = cur.found? c.terms container.path e := by
    rw [cur.found?_dual, hpath]
  rw [verdict_forEach_whole h hpolicy, verdict_forEach_whole h hpolicy]
  cases hf : cur.found? c.terms container.path e with
  | none => rw [elementsVerdict, elementsVerdict, hfound, hf]; rfl
  | some found =>
    rw [elementsVerdict_some h.passes_eq hf, elementsVerdict_some h.passes_eq (hfound.trans hf), h.allEmpty,
      Quantifier.negate_fold, e.quantifier_dual, List.map_map]
    refine congrArg (e.quantifier.dual.fold .ignore) (List.map_congr_left fun x _ => ?_)
    have helement : (container.element x.1 e.display?).path = (container'.element x.1 e.dual.display?).path :=
      congrArg (· ++ x.1) hpath
    have hat : cur.atElement container' x = cur.atElement container x := by
      rw [Cursor.atElement, Cursor.atElement, hpath]
    rw [hat]
    exact hbody _ _ helement _

theorem opposes_along (h : c.IsWhole policy) (hpolicy : policy ≠ .abort) (hbody : Opposes c body body') (path : Path) :
    Opposes c (along body path) (along body' path.dual) := by
  induction path with
  | nil => exact hbody
  | cons k path ih =>
    have hextend : Opposes c (fun scope => along body path (scope.extend [k])) fun scope =>
        along body' (Path.dual path) (scope.extend [k]) := fun scope scope' hpath =>
      ih (scope.extend [k]) (scope'.extend [k]) (congrArg (· ++ [k]) hpath)
    cases k with
    | expand e => exact opposes_forEach h hpolicy e ih
    | name | index | property => exact hextend

end Plan

namespace Rule
variable {c : Chain} {policy : Existence} (h : c.IsWhole policy) (hpolicy : policy ≠ .abort)
include h hpolicy

theorem verdict_group (k : Connective) (rs : List Rule) (scope : Member) (cur : Cursor) :
    ((group k rs).plan scope).verdict c cur = k.fold (rs.map fun r => (r.plan scope).verdict c cur) := by
  rw [plan, Plan.verdict_within_whole h hpolicy, Plan.verdict_connect, plans_eq_map, List.map_map]
  rfl

theorem verdict_not (r : Rule) (scope : Member) (cur : Cursor) :
    (r.not.plan scope).verdict c cur = ((r.plan scope).verdict c cur).negate := by
  rw [Rule.not, verdict_group h hpolicy, List.map_singleton, Connective.fold, Status.allOf_singleton]

theorem verdict_map_not (rs : List Rule) (scope : Member) (cur : Cursor) :
    (rs.map Rule.not).map (fun r => (r.plan scope).verdict c cur) =
      (rs.map fun r => (r.plan scope).verdict c cur).map Status.negate := by
  rw [List.map_map, List.map_map]
  exact List.map_congr_left fun r _ => verdict_not h hpolicy r scope cur

theorem opposes_not (r : Rule) : Plan.Opposes c r.plan r.not.plan := by
  intro scope scope' hpath cur
  have hown : ∀ layer ∈ c.layers, layer.role ≠ .own := by
    rw [h.layers]
    cases policy <;> simp [Layer.ofExistence?, Layer.role]
  -- what a rule answers does not depend on how its scope is shown
  have hplain : (r.plan scope).Agrees c (r.plan scope') :=
    (r.agrees_plain h.reports hown scope scope' hpath).trans (r.agrees_plain h.reports hown scope' scope' rfl).symm
  rw [verdict_not h hpolicy, (hplain cur).1]

theorem verdict_not_not (r : Rule) (scope : Member) (cur : Cursor) :
    (r.not.not.plan scope).verdict c cur = (r.plan scope).verdict c cur := by
  rw [verdict_not h hpolicy, verdict_not h hpolicy, Status.negate_negate]

theorem verdict_not_and {rs : List Rule} (hne : rs ≠ []) (scope : Member) (cur : Cursor) :
    ((group .and rs).not.plan scope).verdict c cur = ((group .or (rs.map Rule.not)).plan scope).verdict c cur := by
  rw [verdict_not h hpolicy, verdict_group h hpolicy, verdict_group h hpolicy, verdict_map_not h hpolicy]
  exact Status.negate_allOf (List.map_eq_nil_iff.not.2 hne)

theorem verdict_not_or {rs : List Rule} (hne : rs ≠ []) (scope : Member) (cur : Cursor) :
    ((group .or rs).not.plan scope).verdict c cur = ((group .and (rs.map Rule.not)).plan scope).verdict c cur := by
  rw [verdict_not h hpolicy, verdict_group h hpolicy, verdict_group h hpolicy, verdict_map_not h hpolicy]
  exact Status.negate_anyOf (List.map_eq_nil_iff.not.2 hne)

theorem verdict_not_bind (m : Member) (r : Rule) (scope : Member) (cur : Cursor) :
    ((bind m r).not.plan scope).verdict c cur = ((bind m.dual r.not).plan scope).verdict c cur := by
  rw [verdict_not h hpolicy, plan, plan]
  exact (Plan.opposes_along h hpolicy (opposes_not h hpolicy r) m.path (scope.adoptNames m) (scope.adoptNames m.dual)
    rfl cur).symm

end Rule

/-! ### Rules -/

/-- Where a missing member is no failure and a demand on every element of an empty container does not
apply, a negation goes through every rule around other rules: two negations cancel, connectives that
combine at least one rule become each other, and so do the quantifiers along a path. -/
theorem Validator.answers_not (v : Validator) (hpolicy : v.terms.settings.existence ≠ .abort)
    (hempty : v.terms.settings.allEmpty = .ignore) :
    let c := v.chain .everything
    (∀ r : Rule, r.not.not.AnswersAs c r) ∧
    (∀ rs : List Rule, rs ≠ [] →
      (Rule.group .and rs).not.AnswersAs c (.group .or (rs.map Rule.not)) ∧
        (Rule.group .or rs).not.AnswersAs c (.group .and (rs.map Rule.not))) ∧
    ∀ (m : Member) (r : Rule), (Rule.bind m r).not.AnswersAs c (.bind m.dual r.not) := by
  intro c
  have h : c.IsWhole v.terms.settings.existence := isWhole_chain hempty
  refine ⟨fun r => ?_, fun rs hne => ⟨?_, ?_⟩, fun m r => ?_⟩
  · exact Rule.answersAs_iff.2 fun cur scope => r.verdict_not_not h hpolicy scope cur
  · exact Rule.answersAs_iff.2 fun cur scope => Rule.verdict_not_and h hpolicy hne scope cur
  · exact Rule.answersAs_iff.2 fun cur scope => Rule.verdict_not_or h hpolicy hne scope cur
  · exact Rule.answersAs_iff.2 fun cur scope => r.verdict_not_bind h hpolicy m scope cur

/-- In every group below the root some item is to be dear, and a price or a stock is to be high; one group
has no items and another cheap ones. -/
theorem Validator.answers_not_groups :
    let m : Member :=
      { path := [.expand (.tree .all (.name "groups") none), .name "items", .expand (.variadic .any .size),
          .name "price"] }
    let dear : Rule := .condition (.compare .gt) (.value (.int 5))
    let high : List Rule := [.bind { path := [.name "price"] } dear, .bind { path := [.name "stock"] } dear]
    let v : Validator := { rule := .bind m dear, terms := { settings := { allEmpty := .ignore } } }
    let c := v.chain .everything
    let o : Object := .json (.object [("groups", .list [.object [("items", .list [])],
      .object [("items", .list [.object [("price", .int 2)], .object [("price", .int 3)]])]]), ("price", .int 9)])
    (v.terms.settings.existence ≠ .abort ∧ v.terms.settings.allEmpty = .ignore ∧ high ≠ []) ∧
      m.dual.path = [.expand (.tree .any (.name "groups") none), .name "items", .expand (.variadic .all .size),
        .name "price"] ∧
      (((Rule.bind m dear).not.eval c (.start o) .root).run default).1 = .success ∧
      (((Rule.bind m.dual dear.not).eval c (.start o) .root).run default).1 = .success ∧
      (((Rule.bind m dear).not.not.eval c (.start o) .root).run default).1 = .fail ∧
      (((Rule.group .and high).not.eval c (.start o) .root).run default).1 =
        (((Rule.group .or (high.map Rule.not)).eval c (.start o) .root).run default).1 ∧
      (((Rule.group .or high).not.eval c (.start o) .root).run default).1 =
        (((Rule.group .and (high.map Rule.not)).eval c (.start o) .root).run default).1 := by
  intro m dear high v c o
  have hpolicy : v.terms.settings.existence ≠ .abort := by decide
  have hne : high ≠ [] := List.cons_ne_nil _ _
  have hfail : (((Rule.bind m dear).eval c (.start o) .root).run default).1 = .fail := by decide
  have hsuccess : (((Rule.bind m dear).not.eval c (.start o) .root).run default).1 = .success := by decide
  obtain ⟨hcancel, hconnect, hbind⟩ := answers_not v hpolicy rfl
  exact ⟨⟨hpolicy, rfl, hne⟩, rfl, hsuccess, (hbind m dear _ _ default default).symm.trans hsuccess,
    (hcancel (.bind m dear) _ _ default default).trans hfail, (hconnect high hne).1 _ _ default default,
    (hconnect high hne).2 _ _ default default⟩

end Conform
