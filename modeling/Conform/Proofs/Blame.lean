import Conform.Proofs.Presentation
import Conform.Proofs.Silence
import Conform.Proofs.Truth

/-!
# Who is to blame

`Plan.answered` lists the leaves that a pass comes to, in order, each with its answer and the number of
negations around it. A report lists the members of those that speak against theirs
(`Plan.accused_told`). What a rule answers inside negations can be traced to a leaf: a failure inside an
even number of them, and a success inside an odd number, leaves a leaf that is accused
(`Rule.charges_plan`). So a pass that fails names a member, that of the first such leaf
(`Validator.check_names_member`).
-/

namespace Conform

/-! ### Leaves that are asked -/

/-- A leaf that a pass comes to, with its answer and the number of negations around it. -/
structure Answered where
  leaf : Leaf
  answer : Status
  negations : Nat

/-- A failure speaks against the member, and inside an odd number of negations a success does. -/
def Answered.accuses (a : Answered) : Bool :=
  a.answer.isFail || (a.negations % 2 == 1 && a.answer.isSuccess)

namespace Plan

mutual

/-- The leaves that a pass comes to, in order, where there are `negations` around the plan. -/
def answered (c : Chain) : Plan → Cursor → Nat → List Answered
  | ask l, cur, negations => [⟨l, Pass.verdict (c.ask cur l), negations⟩]
  | connect k plans, cur, negations => answeredBy c k plans cur negations
  | within b body, cur, negations =>
    (c.enters? cur b).toList.flatMap fun entry =>
      answered c body entry (if b.frame = .not then negations + 1 else negations)
  | forEach container e body, cur, negations =>
    (c.enters? cur (.elements e.quantifier container)).toList.flatMap fun entry =>
      (upTo (fun x => c.ends e.quantifier (container.element x.1 e.display?)
          ((body (container.element x.1 e.display?)).verdict c (entry.atElement container x)))
        ((entry.found? c.terms container.path e).getD [])).flatMap fun x =>
          answered c (body (container.element x.1 e.display?)) (entry.atElement container x) negations

/-- The leaves of the plans of a connective, up to the one that decides. -/
def answeredBy (c : Chain) (k : Connective) : List Plan → Cursor → Nat → List Answered
  | [], _, _ => []
  | p :: ps, cur, negations =>
    answered c p cur negations ++ if k.decides (p.verdict c cur) then [] else answeredBy c k ps cur negations

end

theorem answeredBy_eq (c : Chain) (k : Connective) (plans : List Plan) (cur : Cursor) (negations : Nat) :
    answeredBy c k plans cur negations =
      (upTo (fun p => k.decides (p.verdict c cur)) plans).flatMap (answered c · cur negations) := by
  induction plans with
  | nil => rfl
  | cons p ps ih =>
    rw [answeredBy, ih, upTo, List.flatMap_cons]
    split <;> rfl

variable {c : Chain} {p : Plan} {cur cur' : Cursor} {l : Leaf}

/-- What is asked is what a pass comes to. -/
theorem exists_mem_answered_iff {s : Status} {negations : Nat} :
    (∃ n, ⟨l, s, n⟩ ∈ p.answered c cur negations) ↔ ∃ cur', p.Reaches c cur (.ask l) cur' ∧ (ask l).verdict c cur' = s := by
  constructor
  · rintro ⟨n, h⟩
    induction p generalizing cur negations with
    | ask =>
      cases List.mem_singleton.1 h
      exact ⟨cur, .refl .., rfl⟩
    | connect k plans ih =>
      rw [answered, answeredBy_eq] at h
      obtain ⟨p, hp, h⟩ := List.mem_flatMap.1 h
      obtain ⟨cur', hreach, hs⟩ := ih p (mem_of_mem_upTo hp) h
      exact ⟨cur', .connect hp hreach, hs⟩
    | within b body ih =>
      obtain ⟨entry, hentry, h⟩ := List.mem_flatMap.1 h
      obtain ⟨cur', hreach, hs⟩ := ih h
      exact ⟨cur', .within (Option.mem_toList.1 hentry) hreach, hs⟩
    | forEach container e body ih =>
      obtain ⟨entry, hentry, h⟩ := List.mem_flatMap.1 h
      obtain ⟨x, hx, h⟩ := List.mem_flatMap.1 h
      obtain ⟨cur', hreach, hs⟩ := ih _ h
      cases hfound : entry.found? c.terms container.path e with
      | none => rw [hfound] at hx; cases hx
      | some found =>
        rw [hfound] at hx
        exact ⟨cur', .forEach (Option.mem_toList.1 hentry) hfound hx hreach, hs⟩
  · rintro ⟨cur', h, hs⟩
    generalize hq : Plan.ask l = q at h
    induction h generalizing negations with
    | refl p cur =>
      subst hq
      exact ⟨negations, hs ▸ List.mem_singleton_self _⟩
    | connect hp _ ih =>
      obtain ⟨n, hn⟩ := ih hs hq
      rw [answered, answeredBy_eq]
      exact ⟨n, List.mem_flatMap.2 ⟨_, hp, hn⟩⟩
    | within hentry _ ih =>
      obtain ⟨n, hn⟩ := ih hs hq
      exact ⟨n, List.mem_flatMap.2 ⟨_, Option.mem_toList.2 hentry, hn⟩⟩
    | forEach hentry hfound hx _ ih =>
      obtain ⟨n, hn⟩ := ih hs hq
      refine ⟨n, List.mem_flatMap.2 ⟨_, Option.mem_toList.2 hentry, List.mem_flatMap.2 ⟨_, ?_, hn⟩⟩⟩
      rw [hfound]
      exact hx

end Plan

/-! ### Leaves that are accused -/

theorem Outline.accusedOf_flatMap {α : Type} {around : List FrameKind} (xs : List α) (f : α → List Outline) :
    accusedOf around (xs.flatMap f) = xs.flatMap fun x => accusedOf around (f x) := by
  induction xs with
  | nil => rfl
  | cons x xs ih => rw [List.flatMap_cons, List.flatMap_cons, accusedOf_append, ih]

theorem Outline.accusedOf_frame (around : List FrameKind) (kind : FrameKind) (inner : List Outline) (s : Status) :
    accusedOf around [.frame kind inner s] = accusedOf (kind :: around) inner := by
  rw [accusedOf, accused, accusedOf, List.append_nil]

/-- The members of the leaves that speak against them, in order. -/
def Answered.accused (leaves : List Answered) : List Member :=
  (leaves.filter accuses).map (·.leaf.member)

theorem Answered.accused_flatMap {α : Type} (xs : List α) (f : α → List Answered) :
    accused (xs.flatMap f) = xs.flatMap fun x => accused (f x) := by
  rw [accused, List.filter_flatMap, List.map_flatMap]
  rfl

namespace Plan
variable {c : Chain} {policy : Existence}

section Whole
variable (h : c.IsWhole policy) (hpolicy : policy ≠ .abort)
include h hpolicy

theorem accused_ask (l : Leaf) (cur : Cursor) (around : List FrameKind) :
    Outline.accusedOf around ((ask l).told c cur) =
      Answered.accused ((ask l).answered c cur (around.count .not)) := by
  have hanswer : Pass.verdict (c.ask cur l) = (c.route cur l).status c.registry := h.reports.verdict_ask cur l
  rw [told, Chain.askTold, answered, hanswer]
  rcases h.route_eq hpolicy cur l with hroute | ⟨hroute, -⟩
  · rw [hroute, Route.told, Outline.accusedOf, Outline.accused, Outline.accusedOf, List.append_nil, Route.status,
      Answered.accused, List.filter_singleton]
    show _ = List.map _ (bif Outline.accuses around _ then _ else _)
    cases Outline.accuses around (cur.answer c.registry l) <;> rfl
  · rw [hroute]
    simp [Route.told, Route.status, Outline.accusedOf, Answered.accused, Answered.accuses, Status.isFail,
      Status.isSuccess]

/-- What a pass tells accuses the members of just those leaves that speak against theirs. -/
theorem accused_told (p : Plan) (cur : Cursor) (around : List FrameKind) :
    Outline.accusedOf around (p.told c cur) = Answered.accused (p.answered c cur (around.count .not)) := by
  induction p generalizing cur around with
  | ask l => exact accused_ask h hpolicy l cur around
  | connect k plans ih =>
    rw [told, toldBy_eq, answered, answeredBy_eq, Outline.accusedOf_flatMap, Answered.accused_flatMap]
    exact List.flatMap_congr fun p hp => ih p (mem_of_mem_upTo hp) cur around
  | within b body ih =>
    have hcount : (if b.frame = .not then around.count .not + 1 else around.count .not) =
        (b.frame :: around).count .not := by
      rw [List.count_cons]
      by_cases hnot : b.frame = .not <;> simp [hnot]
    rw [told_within_whole h hpolicy, Outline.accusedOf_frame, ih, answered, h.enters?_eq hpolicy, hcount,
      Option.toList_some, List.flatMap_singleton]
  | forEach container e body ih =>
    have hcount : ((Branch.elements e.quantifier container).frame :: around).count .not = around.count .not := by
      rw [List.count_cons]
      cases e.quantifier <;> rfl
    rw [told, h.branchTold_eq hpolicy, Outline.accusedOf_frame, answered, h.enters?_eq hpolicy, Option.toList_some,
      List.flatMap_singleton, Chain.elementsTold, Outline.accusedOf_flatMap, Answered.accused_flatMap]
    refine List.flatMap_congr fun x _ => ?_
    rw [ih, hcount]

end Whole

end Plan

/-! ### Answers that someone is accused of -/

/-- What an answer must be inside a number of negations to speak against a member. -/
def Status.charge (negations : Nat) : Status :=
  if negations % 2 = 1 then success else fail

namespace Status

theorem charge_ne_ignore (n : Nat) : charge n ≠ ignore := by
  rw [charge]
  split <;> decide

theorem negate_charge (n : Nat) : (charge n).negate = charge (n + 1) := by
  rw [charge, charge]
  rcases Nat.mod_two_eq_zero_or_one n with hn | hn
  · rw [if_neg (by omega), if_pos (by omega)]
    rfl
  · rw [if_pos hn, if_neg (by omega)]
    rfl

end Status

theorem Answered.accuses_of_charge {a : Answered} (h : a.answer = .charge a.negations) : a.accuses = true := by
  rw [accuses, h, Status.charge]
  split
  next hodd => simp [hodd, Status.isSuccess]
  · simp [Status.isFail]

namespace Plan
variable {c : Chain} {policy : Existence} {plans : List Plan}

/-- Where the plan answers so that a member is to blame, some leaf says which. -/
def Charges (c : Chain) (p : Plan) : Prop :=
  ∀ cur n, p.verdict c cur = .charge n → ∃ a ∈ p.answered c cur n, a.accuses = true

theorem charges_ask (l : Leaf) : (ask l).Charges c := fun _ _ h =>
  ⟨_, List.mem_singleton_self _, Answered.accuses_of_charge h⟩

theorem charges_together (hne : plans ≠ []) (hplans : ∀ p ∈ plans, p.Charges c) : (connect .and plans).Charges c := by
  intro cur n hcharge
  have hignore : (connect .and plans).verdict c cur ≠ .ignore := hcharge ▸ Status.charge_ne_ignore n
  obtain ⟨p, hp, hanswer⟩ := exists_asked hne hignore
  rw [if_neg (by decide), hcharge] at hanswer
  obtain ⟨a, ha, haccuses⟩ := hplans p (mem_of_mem_upTo hp) cur n hanswer
  rw [answered, answeredBy_eq]
  exact ⟨a, List.mem_flatMap.2 ⟨p, hp, ha⟩, haccuses⟩

section Whole
variable (h : c.IsWhole policy) (hpolicy : policy ≠ .abort)
include h hpolicy

theorem answered_within (b : Branch) (body : Plan) (cur : Cursor) (n : Nat) :
    (within b body).answered c cur n = body.answered c cur (if b.frame = .not then n + 1 else n) := by
  rw [answered, h.enters?_eq hpolicy, Option.toList_some, List.flatMap_singleton]

theorem charges_group {k : Connective} {scope : Member} {rules : List Rule} (hne : plans ≠ [])
    (hplans : ∀ p ∈ plans, p.Charges c) : (within (.group k scope rules) (connect k plans)).Charges c := by
  intro cur n hcharge
  rw [verdict_within_whole h hpolicy] at hcharge
  have hignore : (connect k plans).verdict c cur ≠ .ignore := hcharge ▸ Status.charge_ne_ignore n
  obtain ⟨p, hp, hanswer⟩ := exists_asked hne hignore
  have hinside : p.verdict c cur = .charge (if (Branch.group k scope rules).frame = .not then n + 1 else n) := by
    rw [hanswer, hcharge, Status.negate_charge]
    cases k <;> rfl
  obtain ⟨a, ha, haccuses⟩ := hplans p (mem_of_mem_upTo hp) cur _ hinside
  rw [answered_within h hpolicy, answered, answeredBy_eq]
  exact ⟨a, List.mem_flatMap.2 ⟨p, hp, ha⟩, haccuses⟩

theorem charges_explained {scope : Member} {message : String} {body : Plan} (hbody : body.Charges c) :
    (within (.explained scope message) body).Charges c := by
  intro cur n hcharge
  rw [verdict_within_whole h hpolicy] at hcharge
  rw [answered_within h hpolicy]
  exact hbody cur n hcharge

theorem charges_forEach {container : Member} {e : Expansion} {body : Member → Plan}
    (hbody : ∀ scope, (body scope).Charges c) : (forEach container e body).Charges c := by
  intro cur n hcharge
  rw [verdict_forEach_whole h hpolicy] at hcharge
  have hignore : elementsVerdict c container e body cur ≠ .ignore := hcharge ▸ Status.charge_ne_ignore n
  cases hfound : cur.found? c.terms container.path e with
  | none =>
    rw [elementsVerdict, hfound] at hignore
    exact absurd rfl hignore
  | some found =>
    obtain ⟨x, hx, hanswer⟩ := exists_element h hfound hignore
    obtain ⟨a, ha, haccuses⟩ := hbody _ _ n (hanswer.trans hcharge)
    rw [answered, h.enters?_eq hpolicy, Option.toList_some, List.flatMap_singleton, hfound]
    exact ⟨a, List.mem_flatMap.2 ⟨x, hx, ha⟩, haccuses⟩

end Whole

end Plan

namespace Rule
variable {c : Chain} {policy : Existence}

/-- Rules are combined, if they are, at least one. -/
def combinesSome : Rule → Bool
  | group _ rules | elements _ rules => !rules.isEmpty
  | condition .. | property .. | presence _ | bind .. | explain .. => true

theorem charges_carries (h : c.IsWhole policy) (hpolicy : policy ≠ .abort) : Carries combinesSome (Plan.Charges c) where
  condition _ _ := Plan.charges_ask _
  property _ _ := Plan.charges_ask _
  presence _ _ _ := Plan.charges_ask _
  bind _ _ _ _ hinner _ := Plan.charges_forEach h hpolicy hinner
  group hrules scope hplans :=
    Plan.charges_group h hpolicy (plans_ne_nil ((Bool.not_eq_true' _).mp hrules) scope) hplans
  elements hrules hplans _ := Plan.charges_forEach h hpolicy fun scope =>
    Plan.charges_together (plans_ne_nil ((Bool.not_eq_true' _).mp hrules) scope) (hplans scope)
  explain _ _ hbody := Plan.charges_explained h hpolicy hbody

theorem charges_plan (h : c.IsWhole policy) (hpolicy : policy ≠ .abort) (r : Rule) (scope : Member)
    (hr : r.everywhere combinesSome = true) : (r.plan scope).Charges c :=
  carried_plan (charges_carries h hpolicy) r scope hr

end Rule

/-! ### The member that is named -/

theorem head?_eraseDups {xs : List String} : xs.eraseDups.head? = xs.head? := by
  cases xs with
  | nil => rfl
  | cons x xs => rw [List.eraseDups_cons, List.head?_cons, List.head?_cons]

namespace Validator
variable (v : Validator) (o : Object)

/-- The leaves that a pass over the whole object comes to, in order. -/
def answered : List Answered :=
  (v.rule.plan .root).answered (v.chain .everything) (.start o) 0

variable {v o}

theorem failed_eq_accused (hpolicy : v.terms.settings.existence ≠ .abort) (hempty : v.terms.settings.allEmpty = .ignore) :
    (v.validate o).failed = Outline.listed (Answered.accused (v.answered o)) := by
  have h : (v.chain .everything).IsWhole v.terms.settings.existence := isWhole_chain hempty
  rw [validate, run_eq_report]
  exact congrArg Outline.listed (Plan.accused_told h hpolicy (v.rule.plan .root) (.start o) [])

theorem head?_listed {leaves : List Answered} (hroot : ∀ a ∈ leaves, a.leaf.member.isRoot = false) :
    (Outline.listed (Answered.accused leaves)).head? = (leaves.find? Answered.accuses).map (·.leaf.member.dotted) := by
  have hkept : (Answered.accused leaves).filter (!·.isRoot) = Answered.accused leaves := by
    refine List.filter_eq_self.2 fun m hm => ?_
    obtain ⟨a, ha, rfl⟩ := List.mem_map.1 hm
    rw [hroot a (List.mem_of_mem_filter ha)]
    rfl
  rw [Outline.listed, hkept, head?_eraseDups, Answered.accused, List.head?_map, List.head?_map, List.head?_filter,
    Option.map_map]
  rfl

/-- Where a missing member is no failure, a demand on every element of an empty container does not apply and
no rule combines nothing, a pass that fails and comes to no leaf on the validated object itself names a
member: that of the first leaf that fails, or succeeds inside an odd number of negations. -/
theorem check_names_member (hpolicy : v.terms.settings.existence ≠ .abort)
    (hempty : v.terms.settings.allEmpty = .ignore) (hrule : v.rule.everywhere Rule.combinesSome = true)
    (hroot : ∀ l cur, (v.rule.plan .root).Reaches (v.chain .everything) (.start o) (.ask l) cur → l.member.isRoot = false)
    (hfail : v.status o = .fail) :
    ∃ a, (v.answered o).find? Answered.accuses = some a ∧
      (v.validate o).failed.head? = some a.leaf.member.dotted ∧
      ∃ failure, v.check o = .error failure ∧ failure.field? = some a.leaf.member.dotted := by
  have h : (v.chain .everything).IsWhole v.terms.settings.existence := isWhole_chain hempty
  have hcharge : (v.rule.plan .root).verdict (v.chain .everything) (.start o) = .charge 0 := by
    rw [← status_run]
    exact hfail
  obtain ⟨b, hb, haccuses⟩ := Rule.charges_plan h hpolicy v.rule .root hrule (.start o) 0 hcharge
  obtain ⟨a, ha⟩ : ∃ a, (v.answered o).find? Answered.accuses = some a :=
    Option.isSome_iff_exists.1 (List.find?_isSome.2 ⟨b, hb, haccuses⟩)
  have hleaves : ∀ a ∈ v.answered o, a.leaf.member.isRoot = false := fun a ha => by
    obtain ⟨cur, hreach, -⟩ := Plan.exists_mem_answered_iff.1 ⟨a.negations, ha⟩
    exact hroot a.leaf cur hreach
  have hhead : (v.validate o).failed.head? = some a.leaf.member.dotted := by
    rw [failed_eq_accused hpolicy hempty, head?_listed hleaves, ha]
    rfl
  exact ⟨a, ha, hhead, _, Outcome.result_of_fail hfail, hhead⟩

/-- No order may be unpaid and cheap: the second one is both, and the first leaf that makes the negation fail
is its price. -/
theorem check_names_member_orders :
    let unpaid : Rule := .bind { path := [.name "paid"] } (.condition (.compare .eq) (.value (.int 0)))
    let cheap : Rule := .bind { path := [.name "price"] } (.condition (.compare .lt) (.value (.int 5)))
    let v : Validator :=
      { rule := .bind { path := [.name "orders", .expand (.each .all)] } (.explain "wrong" (.group .not [cheap, unpaid]))
        terms := { settings := { existence := .safe, allEmpty := .ignore } } }
    let o : Object := .json (.object [("orders", .list [.object [("note", .int 1)],
      .object [("price", .int 3), ("paid", .int 0)]])])
    (v.terms.settings.existence ≠ .abort ∧ v.terms.settings.allEmpty = .ignore ∧
      v.rule.everywhere Rule.combinesSome = true ∧
      (∀ l cur, (v.rule.plan .root).Reaches (v.chain .everything) (.start o) (.ask l) cur → l.member.isRoot = false) ∧
      v.status o = .fail) ∧
    (v.answered o).map (fun a => (a.leaf.member.dotted, a.answer, a.negations)) =
      [("orders.0.price", .ignore, 1), ("orders.0.paid", .ignore, 1), ("orders.1.price", .success, 1),
        ("orders.1.paid", .success, 1)] ∧
    (v.validate o).failed = ["orders.1.price", "orders.1.paid"] ∧
    ∃ a, (v.answered o).find? Answered.accuses = some a ∧
      (v.validate o).failed.head? = some a.leaf.member.dotted ∧
      ∃ failure, v.check o = .error failure ∧ failure.field? = some a.leaf.member.dotted := by
  intro unpaid cheap v o
  have hpolicy : v.terms.settings.existence ≠ .abort := by decide
  have hrule : v.rule.everywhere Rule.combinesSome = true := by decide
  have hleaves : ∀ a ∈ v.answered o, a.leaf.member.isRoot = false := by decide
  have hroot : ∀ l cur, (v.rule.plan .root).Reaches (v.chain .everything) (.start o) (.ask l) cur →
      l.member.isRoot = false := by
    intro l cur hreach
    obtain ⟨n, hl⟩ := Plan.exists_mem_answered_iff.2 ⟨cur, hreach, rfl⟩
    exact hleaves _ hl
  have hfail : v.status o = .fail := by decide
  exact ⟨⟨hpolicy, rfl, hrule, hroot, hfail⟩, by decide, by decide, check_names_member hpolicy rfl hrule hroot hfail⟩

end Validator

end Conform
