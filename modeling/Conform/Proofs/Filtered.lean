import Conform.Proofs.Negations
import Conform.Proofs.Unconcerned

/-!
# Negations behind a filter

Under the policy by which a missing member fails, a guard looks in front of a negation for what its rules
mention. It looks where the negation stands, whatever filter there is, and asks about the first member that
is missing there. The filter answers that question: with a success if the member is none of its business,
or from the candidate. So the negation of comparisons one of which is missing fails exactly if the guard's
one question is let through and fails (`Validator.filtered_negation_of_missing`).
-/

namespace Conform

namespace Filter

/-- The cursor from which a leaf is asked that is not left out. -/
def entry : Filter → Cursor → Leaf → Cursor
  | everything, cur, _ | member _, cur, _ => cur
  | candidate m x strict, cur, l =>
    let cand : Candidate := { path := m.path, object := x, strict }
    cand.follow cur (cand.holds l.member.path) ((l.operand?.map fun other => cand.holds other.path).getD false)

/-- Whether a leaf is asked and its member, or the property of it, is missing where it is asked. -/
def misses (f : Filter) (r : Registry) (cur : Cursor) (l : Leaf) : Bool :=
  !f.skips l && !(f.entry cur l).has r l.member l.property?

variable {f : Filter} {r : Registry} {cur : Cursor} {l : Leaf} {o x : Object} {m : Member} {k : Check}
  {subject : Subject} {strict : Bool}

theorem misses_iff :
    f.misses r cur l = true ↔ f.skips l = false ∧ (f.entry cur l).has r l.member l.property? = false := by
  rw [misses, Bool.and_eq_true, Bool.not_eq_true', Bool.not_eq_true']

theorem entry_eq (hf : f.isCandidate = false) : f.entry cur l = cur := by
  cases f with
  | everything | member => rfl
  | candidate => cases hf

theorem misses_member_iff (hcur : cur.Tracks r o k.member.path) :
    (member m).misses r cur (.check subject k) = true ↔
      Layer.covers m.path (.check subject k) = true ∧ (r.find? o k.path).isSome = false := by
  rw [misses_iff, skips, Bool.not_eq_false', ← hcur.has_check]
  rfl

/-- From the start of a pass, what is at the candidate's place or below is looked for in the candidate. -/
theorem misses_candidate_iff (hm : m.path.Literal) (hk : k.member.path.Concrete) (hfixed : k.operand.isFixed = true) :
    (candidate m x strict).misses r (.start o) (.check subject k) = true ↔
      m.path <+: k.member.path ∧ (r.find? x (k.path.drop m.path.length)).isSome = false := by
  have hoperand : (Leaf.check subject k).operand? = none := Leaf.operand?_of_isFixed hfixed
  have hskips : (candidate m x strict).skips (.check subject k) = false ↔ m.path <+: k.member.path := by
    rw [skips, hoperand, Bool.not_eq_false', Option.map_none, Option.getD_none, Bool.or_false]
    exact Path.covers_iff hm
  rw [misses_iff, hskips]
  refine and_congr_right fun hin => ?_
  have hholds : Candidate.holds { path := m.path, object := x, strict } (Leaf.check subject k).member.path = true :=
    (Path.covers_iff hm).2 hin
  have hentry : (candidate m x strict).entry (.start o) (.check subject k) =
      Candidate.enter { path := m.path, object := x, strict } (.start o) := by
    rw [entry, hholds, hoperand]
    rfl
  have hsees : (Candidate.enter { path := m.path, object := x, strict } (.start o)).sees? r k.member.path =
      r.at? x (k.member.path.drop m.path.length) := Candidate.sees?_enter_start o hin
  rw [hentry, Check.path, List.drop_append_of_le_length hin.length_le]
  exact iff_of_eq (congrArg (· = false) (Cursor.has_of_sees k.property? hk hsees))

end Filter

namespace Mentions

mutual

theorem operands_rule : ∀ (r : Rule) {scope : Member} {ms : Mentions}, r.everywhere Rule.hasFixedOperand = true →
    (rule scope ms r).operands = ms.operands
  | .condition _ operand, _, _, h | .property _ _ operand, _, _, h => by
    cases operand with
    | value | sample => rfl
    | member => cases h
  | .presence _, _, _, _ => rfl
  | .bind m body, _, _, h => by
    rw [rule]
    split
    · rfl
    · exact operands_rule body h
  | .group _ rs, _, _, h => operands_rules rs h
  | .elements .., _, _, _ => rfl
  | .explain _ body, _, _, h => operands_rule body h

theorem operands_rules : ∀ (rs : List Rule) {scope : Member} {ms : Mentions},
    Rule.everywhereIn Rule.hasFixedOperand rs = true → (rules scope ms rs).operands = ms.operands
  | [], _, _, _ => rfl
  | r :: rs, _, _, h => by
    rw [Rule.everywhereIn, Bool.and_eq_true] at h
    rw [rules, operands_rules rs h.2, operands_rule r h.1]

end

end Mentions

/-! ### Questions through a filter -/

namespace Validator
variable {v : Validator} {f : Filter} {o : Object} {cur : Cursor} {l : Leaf} {m : Member} {p? : Option Property}
  {scope : Member} {rules : List Rule} {members : List Member} {subject : Subject} {k : Check} {q : Cursor × Leaf}

theorem ask_of_not_skips (h : f.skips l = false) :
    (v.chain f).ask cur l = (v.chain f).askThrough v.behind (f.entry cur l) l := by
  rw [Chain.ask, layers_chain]
  cases f with
  | everything => rfl
  | member m =>
    rw [Filter.skips, Bool.not_eq_false'] at h
    exact if_pos h
  | candidate m x strict =>
    rw [Filter.skips, Bool.not_eq_false'] at h
    rw [Filter.layers, List.singleton_append, Chain.askThrough_candidate, Candidate.redirect?_eq]
    exact congrArg (Option.elim · _ _) (if_pos h)

theorem verdict_ask_presence :
    Pass.verdict ((v.chain f).ask cur (.presence m p? true)) =
      if f.misses v.terms.registry cur (.presence m p? true) then .fail else .success := by
  cases hskips : f.skips (.presence m p? true) with
  | true =>
    rw [ask_skipped hskips, Pass.verdict_pure, Filter.misses, hskips]
    rfl
  | false =>
    have hanswer : Pass.verdict ((v.chain f).ask cur (.presence m p? true)) =
        (f.entry cur (.presence m p? true)).answer v.terms.registry (.presence m p? true) := by
      rw [ask_of_not_skips hskips]
      exact verdict_behind_of_not_lacks fun _ => rfl
    rw [hanswer, Cursor.answer, Filter.misses, hskips, Bool.not_false, Bool.true_and, Leaf.member, Leaf.property?]
    cases (f.entry cur (.presence m p? true)).has v.terms.registry m p? <;> rfl

theorem verdict_ask_of_misses (hpolicy : v.terms.settings.existence = .abort)
    (h : f.misses v.terms.registry cur (.check subject k) = true) :
    Pass.verdict ((v.chain f).ask cur (.check subject k)) = .fail := by
  obtain ⟨hskips, hmissing⟩ := Filter.misses_iff.1 h
  rw [ask_of_not_skips hskips]
  exact verdict_behind_of_not_has hpolicy hmissing

theorem verdict_question (hq : q ∈ (v.chain f).missingMember? cur members) :
    Pass.verdict ((v.chain f).ask q.1 q.2) = if f.misses v.terms.registry cur q.2 then .fail else .success := by
  obtain ⟨y, -, -, rfl⟩ := Chain.missingMember?_some hq
  exact verdict_ask_presence

theorem verdict_precheck_of_misses (hq : q ∈ (v.chain f).missingMember? cur (Mentions.ofRules scope rules).members)
    (h : f.misses v.terms.registry cur q.2 = true) :
    Pass.verdict ((v.chain f).precheck cur scope rules) = .fail := by
  have hfail : Pass.verdict ((v.chain f).askIfAny
      ((v.chain f).missingMember? cur (Mentions.ofRules scope rules).members)) = .fail := by
    rw [Option.mem_def.1 hq]
    exact (verdict_question hq).trans (if_pos h)
  rw [Chain.verdict_precheck, hfail]
  rfl

theorem verdict_precheck_of_not_misses (hfixed : Rule.everywhereIn Rule.hasFixedOperand rules = true)
    (h : ∀ q ∈ (v.chain f).missingMember? cur (Mentions.ofRules scope rules).members,
      f.misses v.terms.registry cur q.2 = false) :
    Pass.verdict ((v.chain f).precheck cur scope rules) = .success := by
  have hoperands : (Mentions.ofRules scope rules).operands = [] := Mentions.operands_rules rules hfixed
  have hsuccess : Pass.verdict ((v.chain f).askIfAny
      ((v.chain f).missingMember? cur (Mentions.ofRules scope rules).members)) = .success := by
    cases hq : (v.chain f).missingMember? cur (Mentions.ofRules scope rules).members with
    | none => rfl
    | some q =>
      have hlet := h q hq
      rw [Chain.askIfAny, verdict_question hq, hlet]
      rfl
  rw [Chain.verdict_precheck, hsuccess, hoperands]
  rfl

theorem enters?_negation (hpolicy : v.terms.settings.existence = .abort) :
    (v.chain f).enters? cur (.group .not scope rules) =
      if (Pass.verdict ((v.chain f).precheck cur scope rules)).isFail then none else some cur := by
  rw [Chain.enters?, layers_chain, hpolicy]
  cases f <;> rfl

/-! ### Negations -/

theorem verdict_negation_of_misses (hpolicy : v.terms.settings.existence = .abort)
    (hq : q ∈ (v.chain f).missingMember? cur (Mentions.ofRules scope rules).members)
    (h : f.misses v.terms.registry cur q.2 = true) :
    ((Rule.group .not rules).plan scope).verdict (v.chain f) cur = .fail := by
  refine Rule.verdict_negation_of_refused ?_
  rw [enters?_negation hpolicy, verdict_precheck_of_misses hq h]
  rfl

/-- If the guard's question is no failure, a conjunction in which something is missing is found to fail, and
its negation succeeds. -/
theorem verdict_negation_of_not_misses (hpolicy : v.terms.settings.existence = .abort)
    (hconjuncts : Rule.everywhereIn Rule.isConjunct rules = true)
    (hfixed : Rule.everywhereIn Rule.hasFixedOperand rules = true)
    (hk : .check subject k ∈ Rule.leavesOf rules scope)
    (hmisses : f.misses v.terms.registry cur (.check subject k) = true)
    (h : ∀ q ∈ (v.chain f).missingMember? cur (Mentions.ofRules scope rules).members,
      f.misses v.terms.registry cur q.2 = false) :
    ((Rule.group .not rules).plan scope).verdict (v.chain f) cur = .success := by
  have hleaf := verdict_ask_of_misses hpolicy hmisses
  obtain ⟨p, hp, hfail⟩ :=
    (Rule.verdict_conjuncts (v.enters?_plain f cur) rules scope hconjuncts).2 ⟨_, hk, hleaf⟩
  have hentry : (v.chain f).enters? cur (.group .not scope rules) = some cur := by
    rw [enters?_negation hpolicy, verdict_precheck_of_not_misses hfixed h]
    rfl
  exact Rule.verdict_negation_of_fail hentry hp hfail

/-- The guard asks only one question, and that settles the negation of a conjunction in which something is
missing. -/
theorem verdict_negation_conjuncts (hpolicy : v.terms.settings.existence = .abort)
    (hconjuncts : Rule.everywhereIn Rule.isConjunct rules = true)
    (hfixed : Rule.everywhereIn Rule.hasFixedOperand rules = true)
    (hk : .check subject k ∈ Rule.leavesOf rules scope)
    (hmisses : f.misses v.terms.registry cur (.check subject k) = true) :
    ((Rule.group .not rules).plan scope).verdict (v.chain f) cur =
      if ((v.chain f).missingMember? cur (Mentions.ofRules scope rules).members).any (f.misses v.terms.registry cur ·.2)
      then .fail else .success := by
  have hsuccess := verdict_negation_of_not_misses hpolicy hconjuncts hfixed hk hmisses
  cases hq : (v.chain f).missingMember? cur (Mentions.ofRules scope rules).members with
  | none =>
    rw [Option.any_none, if_neg Bool.false_ne_true]
    refine hsuccess fun q h => ?_
    cases hq.symm.trans h
  | some q =>
    rw [Option.any_some]
    cases hq' : f.misses v.terms.registry cur q.2 with
    | true =>
      rw [if_pos rfl]
      exact verdict_negation_of_misses hpolicy hq hq'
    | false =>
      rw [if_neg Bool.false_ne_true]
      refine hsuccess fun q' h => ?_
      cases hq.symm.trans h
      exact hq'

theorem misses_question (hm : m.path.Literal) (hmembers : ∀ y ∈ members, m.path <+: y.splitProperty.1.path)
    (hq : q ∈ (v.chain (.member m)).missingMember? cur members) :
    (Filter.member m).misses v.terms.registry cur q.2 = true := by
  obtain ⟨y, hy, hmissing, rfl⟩ := Chain.missingMember?_some hq
  refine Filter.misses_iff.2 ⟨?_, Chain.has_missingProperty? hmissing⟩
  rw [Filter.skips, Layer.covers_literal hm, Bool.not_eq_false']
  exact (Path.covers_iff hm).2 (hmembers y hy)

/-- Under the policy by which a missing member fails, let a pass come to a negation. Its rules compare, with no
expansion before it, a member that is missing where the filter has it looked for: in the object, or in the
candidate. The negation fails if it is missing where the negation stands and the guard's question for the first
member that is missing there fails too; so it does if the filter lets all questions through, because the rules
mention nothing but its member and what lies below. Where the rules are a conjunction, the negation fails for no
other reason, and succeeds if the question is answered with a success or there is none. -/
theorem filtered_negation_of_missing (hpolicy : v.terms.settings.existence = .abort) (ho : o.WellFormed)
    (h : (v.rule.plan .root).Reaches (v.chain f) (.start o) ((Rule.group .not rules).plan scope) cur)
    (hk : .check subject k ∈ Rule.leavesOf rules scope) (hconcrete : k.member.path.Concrete) :
    let r := v.terms.registry
    let members := (Mentions.ofRules scope rules).members
    let question? := (v.chain f).missingMember? cur members
    let s := ((Rule.group .not rules).plan scope).verdict (v.chain f) cur
    (∀ m, f = .member m → (f.misses r cur (.check subject k) = true ↔
      Layer.covers m.path (.check subject k) = true ∧ (r.find? o k.path).isSome = false)) ∧
    (∀ m x strict, f = .candidate m x strict → m.path.Literal → cur = .start o → k.operand.isFixed = true →
      (f.misses r cur (.check subject k) = true ↔
        m.path <+: k.member.path ∧ (r.find? x (k.path.drop m.path.length)).isSome = false)) ∧
    (f.misses r cur (.check subject k) = true →
      ((f.isCandidate = true → cur.has r k.member k.property? = false) →
        (∀ q ∈ question?, f.misses r cur q.2 = true) → s = .fail) ∧
      (∀ m, f = .member m → m.path.Literal → (∀ y ∈ members, m.path <+: y.splitProperty.1.path) → s = .fail) ∧
      (Rule.everywhereIn Rule.isConjunct rules = true → Rule.everywhereIn Rule.hasFixedOperand rules = true →
        s = if question?.any (f.misses r cur ·.2) then .fail else .success)) := by
  intro r members question? s
  have hscope : cur.Above scope.path := above_of_reaches h rfl
  have hfail : ∀ q ∈ question?, f.misses r cur q.2 = true → s = .fail := fun q hq =>
    verdict_negation_of_misses hpolicy hq
  -- what is missing where the negation stands does not go unasked
  have hasked : f.misses r cur (.check subject k) = true →
      (f.isCandidate = true → cur.has r k.member k.property? = false) →
      (∀ q ∈ question?, f.misses r cur q.2 = true) → s = .fail := by
    intro hmisses hcandidate hall
    have hmissing : cur.has r k.member k.property? = false := by
      cases hf : f.isCandidate with
      | true => exact hcandidate hf
      | false =>
        have hentry := (Filter.misses_iff.1 hmisses).2
        rwa [Filter.entry_eq hf] at hentry
    have hquestion := Chain.missingMember?_of_leaf (c := v.chain f) hscope hk rfl hconcrete hmissing
    obtain ⟨q, hq⟩ := Option.isSome_iff_exists.1 hquestion
    exact hfail q hq (hall q hq)
  refine ⟨?_, ?_, fun hmisses => ⟨hasked hmisses, ?_, fun hconjuncts hfixed => ?_⟩⟩
  · rintro m rfl
    have hcur : cur.Tracks r o scope.path := tracks_of_reaches rfl ho h rfl
    exact Filter.misses_member_iff (hcur.of_prefix_concrete (Rule.prefix_of_mem_leavesOf rules hk rfl) hconcrete)
  · rintro m x strict rfl hm rfl hfixed
    exact Filter.misses_candidate_iff hm hconcrete hfixed
  · rintro m rfl hm hmembers
    exact hasked hmisses nofun fun q hq => misses_question hm hmembers hq
  · exact verdict_negation_conjuncts hpolicy hconjuncts hfixed hk hmisses

/-- Not both coordinates of a point are to be zero. Where there is no point, the negation fails for it. Where the
point has no coordinates, a candidate without the first fails, and one without the second is accepted. -/
theorem filtered_negation_of_missing_points :
    let zero (key : String) : Rule :=
      .bind { path := [.name "point", .name key] } (.condition (.compare .eq) (.value (.int 0)))
    let k (key : String) : Check :=
      { member := { path := [.name "point", .name key] }, property? := none, operator := .compare .eq
        operand := .value (.int 0) }
    let rules : List Rule := [zero "x", zero "y"]
    let v : Validator := { rule := .group .not rules, terms := { settings := { existence := .abort } } }
    let r := v.terms.registry
    let point : Member := { path := [.name "point"] }
    let given (fields : List (String × Json)) : Object := .json (.object fields)
    let stored : Object := given [("point", .object [])]
    let only (key : String) : Filter := .candidate point (given [(key, .int 0)]) false
    (v.terms.settings.existence = .abort ∧ (given []).WellFormed ∧ stored.WellFormed ∧
        .check .member (k "x") ∈ Rule.leavesOf rules .root ∧ .check .member (k "y") ∈ Rule.leavesOf rules .root ∧
        (k "x").member.path.Concrete ∧ (k "y").member.path.Concrete ∧ point.path.Literal ∧
        (∀ y ∈ (Mentions.ofRules .root rules).members, point.path <+: y.splitProperty.1.path) ∧
        (Filter.member point).misses r (.start (given [])) (.check .member (k "x")) = true ∧
        (only "y").misses r (.start stored) (.check .member (k "x")) = true ∧
        (only "x").misses r (.start stored) (.check .member (k "y")) = true ∧
        Rule.everywhereIn Rule.isConjunct rules = true ∧ Rule.everywhereIn Rule.hasFixedOperand rules = true) ∧
      (v.rule.plan .root).verdict (v.chain (.member point)) (.start (given [])) = .fail ∧
      (v.rule.plan .root).verdict (v.chain (only "y")) (.start stored) = .fail ∧
      (v.rule.plan .root).verdict (v.chain (only "x")) (.start stored) = .success := by
  intro zero k rules v r point given stored only
  have hempty : (given []).WellFormed := by decide
  have hstored : stored.WellFormed := by decide
  have hx : .check .member (k "x") ∈ Rule.leavesOf rules .root := List.mem_cons_self ..
  have hy : .check .member (k "y") ∈ Rule.leavesOf rules .root := List.mem_cons_of_mem _ (List.mem_cons_self ..)
  have hx' : (k "x").member.path.Concrete := by decide
  have hy' : (k "y").member.path.Concrete := by decide
  have hpoint : point.path.Literal := List.forall_mem_singleton.2 rfl
  have hbelow : ∀ y ∈ (Mentions.ofRules .root rules).members, point.path <+: y.splitProperty.1.path :=
    List.forall_mem_cons.2 ⟨⟨[.name "x"], rfl⟩, List.forall_mem_singleton.2 ⟨[.name "y"], rfl⟩⟩
  have hnone : (Filter.member point).misses r (.start (given [])) (.check .member (k "x")) = true := by decide
  have hfirst : (only "y").misses r (.start stored) (.check .member (k "x")) = true := by decide
  have hsecond : (only "x").misses r (.start stored) (.check .member (k "y")) = true := by decide
  have hconjuncts : Rule.everywhereIn Rule.isConjunct rules = true := by decide
  have hfixed : Rule.everywhereIn Rule.hasFixedOperand rules = true := by decide
  have hmember := (filtered_negation_of_missing (v := v) (f := .member point) rfl hempty (.refl ..) hx hx').2.2
    hnone
  have hone := (filtered_negation_of_missing (v := v) (f := only "y") rfl hstored (.refl ..) hx hx').2.2 hfirst
  have hother := (filtered_negation_of_missing (v := v) (f := only "x") rfl hstored (.refl ..) hy hy').2.2 hsecond
  exact ⟨⟨rfl, hempty, hstored, hx, hy, hx', hy', hpoint, hbelow, hnone, hfirst, hsecond, hconjuncts,
    hfixed⟩, hmember.2.1 point rfl hpoint hbelow, hone.2.2 hconjuncts hfixed, hother.2.2 hconjuncts hfixed⟩

/-- The negation of two comparisons succeeds although the second member is missing and asked for, if they stand in
this order; and so does the negation of one that the candidate lacks and the object has, and of one with a property
of what is missing. -/
theorem filtered_negation_accepts_missing :
    let is (p : Path) : Rule := .bind { path := p } (.condition (.compare .eq) (.value (.int 1)))
    let x : Path := [.name "x"]
    let y : Path := [.name "y"]
    let below : Path := [.name "a", .name "x"]
    let sized : Rule := .bind { path := [.name "a"] } (.property { name := "size" } (.compare .gt) (.value (.int 1)))
    let size : Path := [.name "a", .property { name := "size" }]
    let terms : Terms := { settings := { existence := .abort } }
    let v (rules : List Rule) : Validator := { rule := .group .not rules, terms }
    let k (p : Path) : Check :=
      { member := { path := p }, property? := none, operator := .compare .eq, operand := .value (.int 1) }
    let empty : Object := .json (.object [])
    let stored : Object := .json (.object [("a", .object [("x", .int 1)])])
    (.check .member (k y) ∈ Rule.leavesOf [is x, is y] .root ∧ Layer.covers y (.check .member (k y)) = true ∧
        (Registry.standard.find? empty y).isSome = false ∧
        ((v [is x, is y]).validateMember empty { path := y }).status = .success ∧
        ((v [is y, is x]).validateMember empty { path := y }).status = .fail) ∧
      (.check .member (k below) ∈ Rule.leavesOf [is below] .root ∧
        ((v [is below]).prevalidate stored { path := [.name "a"] } empty).status = .success ∧
        ((v [is below]).prevalidate empty { path := [.name "a"] } empty).status = .fail) ∧
      ((v [sized]).validateMember empty { path := size }).status = .success := by
  intro is x y below sized size terms v k empty stored
  have hmember : .check .member (k y) ∈ Rule.leavesOf [is x, is y] .root :=
    List.mem_cons_of_mem _ (List.mem_cons_self ..)
  have hcandidate : .check .member (k below) ∈ Rule.leavesOf [is below] .root := List.mem_cons_self ..
  exact ⟨⟨hmember, by decide, by decide, by decide, by decide⟩, ⟨hcandidate, by decide, by decide⟩, by decide⟩

end Validator

end Conform
