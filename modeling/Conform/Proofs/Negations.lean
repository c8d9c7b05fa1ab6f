import Conform.Proofs.Comparisons
import Conform.Proofs.Prediction

/-!
# Missing members under a negation

Under the policy by which a missing member fails, a guard looks in front of a negation for what its rules
mention, and that is every member that is compared with no expansion before it (`Mentions.hold_leaves_rule`).
What is missing there makes the negation fail. What lies behind an expansion is found missing only under
the negation: a comparison that all of the rules depend on then fails, and so the negation succeeds
(`Validator.negation_of_missing`).
-/

namespace Conform

/-! ### Rules that depend on every leaf -/

theorem Plan.Reaches.trans {c : Chain} {p q r : Plan} {cur cur' cur'' : Cursor} (h : p.Reaches c cur q cur')
    (h' : q.Reaches c cur' r cur'') : p.Reaches c cur r cur'' := by
  induction h with
  | refl => exact h'
  | connect hp _ ih => exact .connect hp (ih h')
  | within hentry _ ih => exact .within hentry (ih h')
  | forEach hentry hfound hx _ ih => exact .forEach hentry hfound hx (ih h')

/-- Whether the plan fails if a plan inside it does. -/
def Plan.insists : Plan → Bool
  | ask _ => true
  | connect k _ => k == .and
  | within b _ => b.isPlain
  | forEach _ e _ => e.quantifier == .all

/-- Whether the rule demands all of the rules inside it, and of every element. -/
def Rule.insists : Rule → Bool
  | condition .. | property .. | presence _ | explain .. => true
  | bind m _ => m.path.all fun k => k.quantifier? != some .any
  | group k _ => k == .and
  | elements e _ => e.quantifier == .all

theorem Rule.shapes_insists : Shapes insists (·.insists = true) where
  ask _ := rfl
  bind {m _} h e he _ _ := by
    have hne := List.all_eq_true.1 h _ he
    cases hq : e.quantifier with
    | all => simp [Plan.insists, hq]
    | any => simp [Key.quantifier?, Key.expansion?, hq] at hne
  group {k _} h _ _ := by
    cases eq_of_beq h
    exact ⟨rfl, rfl⟩
  elements h _ _ := h
  together _ := rfl
  explain _ _ _ := rfl

theorem Quantifier.fold_all_of_fail {allEmpty : Status} {statuses : List Status} (h : .fail ∈ statuses) :
    fold .all allEmpty statuses = .fail := by
  cases statuses with
  | nil => cases h
  | cons => exact Status.allOf_of_fail h

/-- A failure goes up through plans that insist. -/
theorem Plan.verdict_fail_of_reaches {c : Chain} [c.HandlerFree] {p q : Plan} {cur cur' : Cursor}
    (hpasses : ∀ m s, c.passes m s = s.isSuccess) (hp : p.Everywhere (·.insists = true)) (h : p.Reaches c cur q cur')
    (hq : q.verdict c cur' = .fail) : p.verdict c cur = .fail := by
  induction h with
  | refl => exact hq
  | @connect k plans p q cur cur' hmem _ ih =>
    obtain ⟨hk, hplans⟩ := everywhere_connect_iff.1 hp
    have hfail := ih (hplans p (mem_of_mem_upTo hmem)) hq
    cases eq_of_beq hk
    rw [verdict_connect]
    exact Status.allOf_of_fail (hfail ▸ List.mem_map_of_mem (mem_of_mem_upTo hmem))
  | within hentry _ ih =>
    rw [verdict_within, hentry]
    exact ih (everywhere_within_iff.1 hp).2 hq
  | @forEach container e body cur entry cur' found x q hentry hfound hx _ ih =>
    cases hp with
    | forEach hq' hbody =>
      have hfail := ih (hbody _) hq
      rw [verdict_forEach, hentry, Option.map_some, Option.getD_some, elementsVerdict_some hpasses hfound,
        eq_of_beq hq']
      exact Quantifier.fold_all_of_fail (hfail ▸ List.mem_map_of_mem (mem_of_mem_upTo hx))

theorem Rule.verdict_negation_of_fail {c : Chain} [c.HandlerFree] {cur entry : Cursor} {scope : Member}
    {rules : List Rule} {p : Plan} (hentry : c.enters? cur (.group .not scope rules) = some entry)
    (hp : p ∈ plans rules scope)
    (hfail : p.verdict c entry = .fail) : ((group .not rules).plan scope).verdict c cur = .success := by
  have hall : Status.allOf ((plans rules scope).map (Plan.verdict c · entry)) = .fail :=
    Status.allOf_of_fail (hfail ▸ List.mem_map_of_mem hp)
  rw [plan, Plan.verdict_within, hentry, Option.map_some, Option.getD_some, Plan.verdict_connect, Connective.fold, hall]
  rfl

theorem Rule.verdict_negation_of_refused {c : Chain} [c.HandlerFree] {cur : Cursor} {scope : Member} {rules : List Rule}
    (h : c.enters? cur (.group .not scope rules) = none) : ((group .not rules).plan scope).verdict c cur = .fail := by
  rw [plan, Plan.verdict_within, h]
  rfl

/-! ### What is looked for in front of a negation -/

namespace Rule

mutual

theorem prefix_of_mem_leaves : ∀ (r : Rule) {scope : Member} {l : Leaf}, l ∈ r.leaves scope → l.isCheck = true →
    scope.path <+: l.member.path
  | condition .., scope, l, hl, _ | property .., scope, l, hl, _ => by
    rw [leaves, List.mem_singleton] at hl
    have hpath : l.member.path = scope.path := hl ▸ Leaf.path_member_compare ..
    exact hpath ▸ List.prefix_rfl
  | presence _, scope, l, hl, hcheck => by
    rw [leaves, List.mem_singleton] at hl
    rw [hl] at hcheck
    cases hcheck
  | bind m body, scope, l, hl, hcheck =>
    (List.prefix_append scope.path m.path).trans (prefix_of_mem_leaves body hl hcheck)
  | group _ rules, scope, l, hl, hcheck => prefix_of_mem_leavesOf rules hl hcheck
  | elements .., _, _, hl, _ => absurd hl List.not_mem_nil
  | explain _ body, scope, l, hl, hcheck => prefix_of_mem_leaves body hl hcheck

theorem prefix_of_mem_leavesOf : ∀ (rs : List Rule) {scope : Member} {l : Leaf}, l ∈ leavesOf rs scope →
    l.isCheck = true → scope.path <+: l.member.path
  | [], _, _, hl, _ => absurd hl List.not_mem_nil
  | r :: rs, _, _, hl, hcheck => by
    rcases List.mem_append.1 hl with hl | hl
    · exact prefix_of_mem_leaves r hl hcheck
    · exact prefix_of_mem_leavesOf rs hl hcheck

end

end Rule

namespace Mentions
variable {P Q : Path → Prop} {ms : Mentions}

theorem mem_note_of_mem {m x : Member} {noted : List Member} (hx : x ∈ noted) : x ∈ note m noted := by
  unfold note
  split
  · exact hx
  · exact List.mem_append_left _ hx

theorem Hold.of_operand {operand : Operand} (h : (ms.operand operand).Hold P Q) : ms.Hold P Q := by
  cases operand with
  | value | sample => exact h
  | member m => exact ⟨h.members, fun x hx => h.operands x (mem_note_of_mem hx)⟩

theorem Hold.of_member {m : Member} (h : (ms.member m).Hold P Q) : ms.Hold P Q :=
  ⟨fun x hx => h.members x (mem_note_of_mem hx), h.operands⟩

theorem hold_leaf_compare {scope scope' : Member} (hs : scope'.path = scope.path) {p? : Option Property} {op : Operator}
    {operand : Operand} (h : P (scope.path ++ (p?.map Key.property).toList)) :
    ∀ l ∈ [Leaf.compare scope' p? op operand], l.isCheck = true → l.member.path.Concrete → P l.path := by
  intro l hl _ _
  have hpath : l.path = scope'.path ++ (p?.map Key.property).toList := by
    rw [List.mem_singleton.1 hl, Leaf.path, Leaf.path_member_compare]
    cases operand with
    | member | sample => rfl
    | value =>
      rw [Leaf.compare]
      split <;> rfl
  rwa [hpath, hs]

mutual

/-- What holds of all that a rule mentions holds of every member that it compares with no expansion before
it. -/
theorem hold_leaves_rule (hP : Respects P) : ∀ (r : Rule) {ms : Mentions} {scope scope' : Member},
    scope.path.Concrete → (scope.path = [] → P []) → scope'.path = scope.path → (rule scope ms r).Hold P Q →
    ms.Hold P Q ∧ ∀ l ∈ r.leaves scope', l.isCheck = true → l.member.path.Concrete → P l.path
  | .condition op operand, ms, scope, scope', hc, hroot, hs, h => by
    have hmember := (hold_member_iff hP hc hroot).1 h.of_operand
    refine ⟨hmember.1, hold_leaf_compare hs ?_⟩
    rw [Option.map_none, Option.toList_none, List.append_nil]
    exact hmember.2
  | .property p op operand, ms, scope, scope', hc, hroot, hs, h => by
    have hp : (scope.extend [.property p]).path.Concrete := hc.append (List.forall_mem_singleton.2 rfl)
    have hmember := (hold_member_iff hP hp (by simp [Member.extend])).1 h.of_operand
    exact ⟨hmember.1, hold_leaf_compare hs hmember.2⟩
  | .presence _, _, _, scope', _, _, _, h => by
    refine ⟨h, fun l hl hcheck => ?_⟩
    rw [List.mem_singleton.1 hl] at hcheck
    cases hcheck
  | .bind m body, ms, scope, scope', hc, hroot, hs, h => by
    have hpath : ((scope'.adoptNames m).extend m.path).path = (scope.extend m.path).path := congrArg (· ++ m.path) hs
    rw [rule] at h
    split at h
    next cut hcut =>
      refine ⟨h.of_member, fun l hl hcheck hconcrete => ?_⟩
      -- the path of the member fans out, and so does every path below it
      have hm : m.path.Concrete := fun k hk => by
        have hbelow := Rule.prefix_of_mem_leaves body hl hcheck
        rw [hpath] at hbelow
        exact hconcrete k (hbelow.subset (List.mem_append_right _ hk))
      rw [Path.firstExpansion?_concrete hm] at hcut
      cases hcut
    next hcut =>
      have hm : m.path.Concrete := fun k hk => List.findIdx?_eq_none_iff.1 hcut k hk
      exact hold_leaves_rule hP body (hc.append hm) (fun h => hroot (List.append_eq_nil_iff.1 h).1) hpath h
  | .group _ rs, _, _, _, hc, hroot, hs, h => hold_leaves_rules hP rs hc hroot hs h
  | .elements .., _, _, _, _, _, _, h => ⟨h.of_member, fun _ hl => absurd hl List.not_mem_nil⟩
  | .explain _ body, _, _, _, hc, hroot, hs, h => hold_leaves_rule hP body hc hroot hs h

theorem hold_leaves_rules (hP : Respects P) : ∀ (rs : List Rule) {ms : Mentions} {scope scope' : Member},
    scope.path.Concrete → (scope.path = [] → P []) → scope'.path = scope.path → (rules scope ms rs).Hold P Q →
    ms.Hold P Q ∧ ∀ l ∈ Rule.leavesOf rs scope', l.isCheck = true → l.member.path.Concrete → P l.path
  | [], _, _, _, _, _, _, h => ⟨h, fun _ hl => absurd hl List.not_mem_nil⟩
  | r :: rs, _, _, _, hc, hroot, hs, h => by
    obtain ⟨hrest, hleaves⟩ := hold_leaves_rules hP rs hc hroot hs h
    obtain ⟨hms, hleaf⟩ := hold_leaves_rule hP r hc hroot hs hrest
    exact ⟨hms, List.forall_mem_append.2 ⟨hleaf, hleaves⟩⟩

end

end Mentions

namespace Cursor
variable {r : Registry} {o : Object} {cur : Cursor} {p q : Path}

theorem Tracks.above (h : cur.Tracks r o p) : cur.Above p :=
  ⟨h.concrete, h.le, h.operands⟩

theorem Tracks.of_prefix_concrete (h : cur.Tracks r o p) (hpq : p <+: q) (hq : q.Concrete) : cur.Tracks r o q := by
  obtain ⟨s, rfl⟩ := hpq
  exact ⟨h.toStands.append s, h.root, h.operands, hq⟩

/-- What a guard finds in front of a negation is found when the leaf is asked. -/
theorem has_of_hasAt_path {l : Leaf} (h : cur.hasAt r l.path = true) : cur.has r l.member l.property? = true := by
  rw [Leaf.path] at h
  cases hp : l.property? with
  | none =>
    rw [hp, Option.map_none, Option.toList_none, List.append_nil] at h
    exact has_of_hasAt h
  | some q =>
    rw [hp, Option.map_some, Option.toList_some, hasAt_property] at h
    exact h

end Cursor

namespace Chain
variable {c : Chain} {cur : Cursor} {o : Object} {scope : Member} {rules : List Rule} {l : Leaf}

theorem missingMember?_of_leaf (hcur : cur.Above scope.path) (hl : l ∈ Rule.leavesOf rules scope)
    (hcheck : l.isCheck = true) (hconcrete : l.member.path.Concrete)
    (hmissing : cur.has c.registry l.member l.property? = false) :
    (c.missingMember? cur (Mentions.ofRules scope rules).members).isSome = true := by
  rw [Option.isSome_iff_ne_none, Ne, missingMember?_eq_none_iff]
  intro hall
  have hP := Mentions.respects_hasAt cur c.registry
  have hroot : scope.path = [] → cur.hasAt c.registry [] = true := fun hs => by
    rw [hs] at hcur
    exact hcur.hasAt_root
  have hhold : (Mentions.ofRules scope rules).Hold (fun p => cur.hasAt c.registry p = true) fun _ => True :=
    ⟨hall, fun _ _ => trivial⟩
  have hat := (Mentions.hold_leaves_rules hP rules hcur.concrete hroot rfl hhold).2 l hl hcheck hconcrete
  rw [Cursor.has_of_hasAt_path hat] at hmissing
  cases hmissing

end Chain

/-! ### Negations in a pass over the whole object -/

namespace Validator
variable {v : Validator} {o : Object} {cur : Cursor} {scope : Member} {rules : List Rule}

theorem guards_of_abort (hpolicy : v.terms.settings.existence = .abort) :
    (v.chain .everything).Guards ((v.under .safe).chain .everything) where
  abort := by
    rw [layers_chain, hpolicy]
    rfl
  safe := layers_chain ..
  registry := rfl
  depth := rfl
  allEmpty := rfl

theorem verdict_negation_of_lacksBefore (hpolicy : v.terms.settings.existence = .abort)
    (hb : (v.chain .everything).lacksBefore cur (.group .not scope rules) = true) :
    ((Rule.group .not rules).plan scope).verdict (v.chain .everything) cur = .fail := by
  refine Rule.verdict_negation_of_refused ?_
  rw [((guards_of_abort hpolicy).enters?_eq cur _).1, if_pos hb]

/-- Where all of the rules must succeed, a failure among them makes their negation succeed. -/
theorem verdict_negation_of_reaches {c : Chain} [c.HandlerFree] (hpasses : ∀ m s, c.passes m s = s.isSuccess)
    (hrules : Rule.everywhereIn Rule.insists rules = true) {l : Leaf} {cur' : Cursor}
    (h : ((Rule.group .not rules).plan scope).Reaches c cur (.ask l) cur') (hl : (Plan.ask l).verdict c cur' = .fail) :
    ((Rule.group .not rules).plan scope).verdict c cur = .success := by
  rw [Rule.plan] at h
  cases h with
  | @within _ _ _ _ entry _ hentry h =>
    cases h with
    | @connect _ _ p _ _ _ hp h =>
      have hmem := mem_of_mem_upTo hp
      have hfail : p.verdict c entry = .fail :=
        Plan.verdict_fail_of_reaches hpasses (Rule.everywhere_plans Rule.shapes_insists scope hrules p hmem) h hl
      exact Rule.verdict_negation_of_fail hentry hmem hfail

/-- Under the policy by which a missing member fails, a negation fails if something is missing of what its
rules mention, and they mention every member that is compared with no expansion before it. Where the rules
demand all of what they contain, a member that is found missing under the negation makes it succeed. If
there are no expansions under any negation, what is rejected where a missing member is no failure is
rejected here. -/
theorem negation_of_missing (hpolicy : v.terms.settings.existence = .abort) (ho : o.WellFormed) :
    (∀ rules scope cur,
      (v.rule.plan .root).Reaches (v.chain .everything) (.start o) ((Rule.group .not rules).plan scope) cur →
        let s := ((Rule.group .not rules).plan scope).verdict (v.chain .everything) cur
        (∀ subject k, .check subject k ∈ Rule.leavesOf rules scope → k.member.path.Concrete →
          (v.terms.registry.find? o k.path).isSome = false →
            (v.chain .everything).lacksBefore cur (.group .not scope rules) = true) ∧
        ((v.chain .everything).lacksBefore cur (.group .not scope rules) = true → s = .fail) ∧
        (Rule.everywhereIn Rule.insists rules = true → ∀ subject k cur',
          ((Rule.group .not rules).plan scope).Reaches (v.chain .everything) cur (.ask (.check subject k)) cur' →
            (v.terms.registry.find? o k.path).isSome = false → s = .success)) ∧
    (v.rule.everywhere Rule.negatesHere = true → v.rule.everywhere Rule.hasConcreteOperand = true →
      ((v.under .safe).validate o).status = .fail → (v.validate o).status = .fail) := by
  have hguards := guards_of_abort hpolicy
  refine ⟨fun rules scope cur h => ⟨fun subject k hk hconcrete hmissing => ?_, verdict_negation_of_lacksBefore hpolicy,
    fun hrules subject k cur' hleaf hmissing => ?_⟩, fun hnegates hoperands hsafe => ?_⟩
  · have hcur : cur.Tracks v.terms.registry o scope.path := tracks_of_reaches rfl ho h rfl
    have hbelow := hcur.of_prefix_concrete (Rule.prefix_of_mem_leavesOf rules hk rfl) hconcrete
    have hasked := Chain.missingMember?_of_leaf (c := v.chain .everything) hcur.above hk rfl hconcrete
      (hbelow.has_check.trans hmissing)
    exact (Bool.or_eq_true ..).mpr (.inl hasked)
  · have hcur : cur'.Tracks v.terms.registry o k.member.path := tracks_of_reaches rfl ho (h.trans hleaf) rfl
    have hfail : (Plan.ask (.check subject k)).verdict (v.chain .everything) cur' = .fail := by
      show Pass.verdict ((v.chain .everything).ask cur' (.check subject k)) = _
      rw [ask_everything]
      exact verdict_behind_of_not_has hpolicy (hcur.has_check.trans hmissing)
    exact verdict_negation_of_reaches (fun m s => (hguards.passes_eq m s).1) hrules hleaf hfail
  · have hstart : (Cursor.start o).Above Member.root.path := .start o
    rw [validate, status_run] at hsafe ⊢
    exact (Rule.hardened_plan hguards hnegates hoperands (.start o) .root hstart).elim id fun heq => heq.trans hsafe

/-- Not all items are to have an id: nothing is missing, the kind and the items are missing, and the second
item has no id. Where all are to have one, a missing id only adds a failure. -/
theorem negation_of_missing_items :
    let ids : Rule := .bind { path := [.name "items", .expand (.each .all), .name "id"] }
      (.condition (.compare .gt) (.value (.int 0)))
    let kind : Check :=
      { member := { path := [.name "kind"] }, property? := none, operator := .compare .eq, operand := .value (.int 1) }
    let id : Check :=
      { member := { path := [.name "items", .index 1, .name "id"] }, property? := none, operator := .compare .gt
        operand := .value (.int 0) }
    let rules : List Rule := [ids, .bind kind.member (.condition kind.operator kind.operand)]
    let terms : Terms := { settings := { existence := .abort } }
    let v : Validator := { rule := .group .not rules, terms }
    let w : Validator := { rule := ids, terms }
    let items (fields : List (String × Json)) : Object :=
      .json (.object [("items", .list [.object [("id", .int 1)], .object fields]), ("kind", .int 1)])
    let cur : Cursor := (Cursor.start (items [])).atElement { path := [.name "items"] } ([.index 1], .json (.object []))
    let empty : Object := .json (.object [])
    let c := v.chain .everything
    (v.terms.settings.existence = .abort ∧ (items []).WellFormed ∧ empty.WellFormed ∧
        (items [("id", .int 0)]).WellFormed ∧ Rule.everywhereIn Rule.insists rules = true ∧
        ((Rule.group .not rules).plan .root).Reaches c (.start (items [])) (.ask (.check .member id)) cur ∧
        (v.terms.registry.find? (items []) id.path).isSome = false ∧
        .check .member kind ∈ Rule.leavesOf rules .root ∧ kind.member.path.Concrete ∧
        (v.terms.registry.find? empty kind.path).isSome = false ∧
        w.rule.everywhere Rule.negatesHere = true ∧ w.rule.everywhere Rule.hasConcreteOperand = true ∧
        ((w.under .safe).validate (items [("id", .int 0)])).status = .fail) ∧
      (v.rule.plan .root).verdict c (.start (items [])) = .success ∧
      (v.rule.plan .root).verdict c (.start empty) = .fail ∧
      (w.validate (items [("id", .int 0)])).status = .fail := by
  intro ids kind id rules terms v w items cur empty c
  have ho : (items []).WellFormed := by decide
  have hempty : empty.WellFormed := by decide
  have hitems : (items [("id", .int 0)]).WellFormed := by decide
  have hinsists : Rule.everywhereIn Rule.insists rules = true := by decide
  have hreached : ((Rule.group .not rules).plan .root).Reaches c (.start (items [])) (.ask (.check .member id)) cur :=
    .within rfl (.connect (mem_upTo_cons_self ..)
      (.forEach rfl rfl (mem_upTo_cons rfl (mem_upTo_cons_self ..)) (.refl ..)))
  have hid : (v.terms.registry.find? (items []) id.path).isSome = false := by decide
  have hleaf : .check .member kind ∈ Rule.leavesOf rules .root := List.mem_cons_of_mem _ (List.mem_cons_self ..)
  have hkind : (v.terms.registry.find? empty kind.path).isSome = false := by decide
  have hconcrete : kind.member.path.Concrete := by decide
  have hnegates : w.rule.everywhere Rule.negatesHere = true := by decide
  have hoperands : w.rule.everywhere Rule.hasConcreteOperand = true := by decide
  have hsafe : ((w.under .safe).validate (items [("id", .int 0)])).status = .fail := by decide
  have hsuccess := (negation_of_missing (v := v) rfl ho).1 rules .root (.start (items [])) (.refl ..)
  have hfail := (negation_of_missing (v := v) rfl hempty).1 rules .root (.start empty) (.refl ..)
  exact ⟨⟨rfl, ho, hempty, hitems, hinsists, hreached, hid, hleaf, hconcrete, hkind, hnegates, hoperands, hsafe⟩,
    hsuccess.2.2 hinsists .member id cur hreached hid, hfail.2.1 (hfail.1 .member kind hleaf hconcrete hkind),
    (negation_of_missing (v := w) rfl hitems).2 hnegates hoperands hsafe⟩

/-- The second item has no id; the negation of the demand for ids succeeds although that was found missing,
and fails where a missing member is no failure. -/
theorem negation_accepts_missing :
    let v : Validator :=
      { rule := .not (.bind { path := [.name "items", .expand (.each .all), .name "id"] }
          (.condition (.compare .gt) (.value (.int 0))))
        terms := { settings := { existence := .abort } } }
    let id : Check :=
      { member := { path := [.name "items", .index 1, .name "id"] }, property? := none, operator := .compare .gt
        operand := .value (.int 0) }
    let o : Object := .json (.object [("items", .list [.object [("id", .int 1)], .object []])])
    let cur : Cursor := (Cursor.start o).atElement { path := [.name "items"] } ([.index 1], .json (.object []))
    (v.rule.plan .root).Reaches (v.chain .everything) (.start o) (.ask (.check .member id)) cur ∧
      (v.terms.registry.find? o id.path).isSome = false ∧ (v.validate o).status = .success ∧
      ((v.under .safe).validate o).status = .fail := by
  intro v id o cur
  refine ⟨.within rfl (.connect (mem_upTo_cons_self ..) ?_), by decide, by decide, by decide⟩
  exact .forEach rfl rfl (mem_upTo_cons rfl (mem_upTo_cons_self ..)) (.refl ..)

end Validator

end Conform
