import Conform.Proofs.Policies
import Conform.Proofs.Throughout

/-!
# Rules that a filter leaves out

A filter answers the leaves that are not about its member with a success. If a pass comes to no other
leaf, a rule that negates nothing is not violated; but the negation of such a rule is, whatever the
object holds (`Validator.status_unconcerned`).
-/

namespace Conform

/-- Whether a leaf is none of a filter's business. -/
def Filter.skips : Filter → Leaf → Bool
  | everything, _ => false
  | member m, l => !Layer.covers m.path l
  | candidate m .., l =>
    !(m.path.covers l.member.path || (l.operand?.map fun other => m.path.covers other.path).getD false)

section UpTo
variable {α : Type} {stop : α → Bool} {P : α → Prop} {xs : List α}

theorem forall_of_upTo (h : ∀ x ∈ upTo stop xs, P x) (hstop : ∀ x, P x → stop x = false) : ∀ x ∈ xs, P x := by
  induction xs with
  | nil => exact fun x hx => absurd hx List.not_mem_nil
  | cons y ys ih =>
    have hy := h y (mem_upTo_cons_self ..)
    exact List.forall_mem_cons.2 ⟨hy, ih fun x hx => h x (mem_upTo_cons (hstop y hy) hx)⟩

end UpTo

theorem Plan.verdict_of_success {c : Chain} [c.HandlerFree] {p : Plan} (hassert : p.Everywhere (·.negates = false))
    (hlocal : p.Everywhere (·.isDemand = false)) {cur : Cursor}
    (h : ∀ l cur', p.Reaches c cur (.ask l) cur' → (ask l).verdict c cur' = .success) :
    p.verdict c cur = .success := by
  induction p generalizing cur with
  | ask l => exact h l cur (.refl ..)
  | connect k plans ih =>
    cases hassert with | connect hnot hplans =>
    cases hlocal with | connect _ hlocals =>
    have hreached : ∀ p ∈ upTo (fun p => k.decides (p.verdict c cur)) plans, p.verdict c cur = .success := fun p hp =>
      have hmem := mem_of_mem_upTo hp
      ih p hmem (hplans p hmem) (hlocals p hmem) fun l cur' hl => h l cur' (.connect hp hl)
    rw [verdict_connect]
    cases k with
    | and =>
      have hall : ∀ p ∈ plans, p.verdict c cur = .success :=
        forall_of_upTo hreached fun p hp => by rw [hp]; rfl
      exact Status.allOf_of_success fun s hs => by
        obtain ⟨p, hp, rfl⟩ := List.mem_map.1 hs
        exact hall p hp
    | or =>
      -- the others need not succeed: they are not reached
      cases plans with
      | nil => rfl
      | cons p ps =>
        have hp := hreached p (mem_upTo_cons_self ..)
        rw [List.map_cons, hp]
        rfl
    | not => cases hnot
  | within b body ih =>
    cases hassert with | within hnot hbody =>
    cases hlocal with | within _ hlocal =>
    rw [verdict_within]
    cases hentry : c.enters? cur b with
    | none =>
      obtain ⟨scope, rules, rfl⟩ := Chain.group_not_of_enters? hentry
      cases hnot
    | some entry => exact ih hbody hlocal fun l cur' hl => h l cur' (.within hentry hl)
  | forEach container e body => cases hlocal with | forEach hdemand _ => cases hdemand

namespace Validator
variable {v : Validator} {o : Object} {f : Filter}

theorem ask_skipped {cur : Cursor} {l : Leaf} (h : f.skips l = true) : (v.chain f).ask cur l = pure .success := by
  rw [Chain.ask, layers_chain]
  cases f with
  | everything => cases h
  | member m =>
    rw [Filter.skips, Bool.not_eq_true'] at h
    show (if Layer.covers m.path l then _ else _) = _
    rw [h]
    rfl
  | candidate m x strict =>
    rw [Filter.skips, Bool.not_eq_true'] at h
    have hredirect : Candidate.redirect? { path := m.path, object := x, strict } cur l = none := by
      rw [Candidate.redirect?]
      exact if_neg (by rw [← Bool.not_eq_true] at h; exact h)
    rw [Filter.layers, List.singleton_append, Chain.askThrough_candidate, hredirect]
    rfl

theorem verdict_skipped {cur : Cursor} {l : Leaf} (h : f.skips l = true) :
    (Plan.ask l).verdict (v.chain f) cur = .success := by
  rw [Plan.verdict, Plan.run, ask_skipped h, Pass.verdict_pure]

theorem exists_negation_of_fail (hempty : v.terms.settings.allEmpty ≠ .fail)
    (hskips : ∀ l cur, (v.rule.plan .root).Reaches (v.chain f) (.start o) (.ask l) cur → f.skips l = true)
    (hfail : (v.run o f).status = .fail) :
    ∃ q cur, (v.rule.plan .root).Reaches (v.chain f) (.start o) q cur ∧ q.verdict (v.chain f) cur = .fail ∧
      q.negates = true := by
  have hempty : (v.chain f).settings.allEmpty ≠ .fail := hempty
  rw [status_run] at hfail
  obtain ⟨q, cur, hq, hfail, hleaf | hnegates⟩ := Plan.exists_reached_fail hempty hfail
  · cases q with
    | ask l =>
      rw [verdict_skipped (hskips l cur hq)] at hfail
      cases hfail
    | connect | within | forEach => cases hleaf
  · exact ⟨q, cur, hq, hfail, hnegates⟩

/-- What is negated there succeeds, so that the negation fails. -/
theorem status_negation {rules : List Rule} (hrule : v.rule = .group .not rules)
    (hskips : ∀ l cur, (v.rule.plan .root).Reaches (v.chain f) (.start o) (.ask l) cur → f.skips l = true)
    (hrules : ∀ r ∈ rules, r.isPositive = true ∧ r.isLocal = true) : (v.run o f).status = .fail := by
  rw [hrule] at hskips
  rw [status_run, hrule, Rule.plan, Plan.verdict_within]
  cases hentry : (v.chain f).enters? (.start o) (.group .not .root rules) with
  | none => rfl
  | some entry =>
    have hplans : (Plan.connect .and (Rule.plans rules .root)).verdict (v.chain f) entry = .success := by
      have hassert := Rule.everywhereIn_iff.2 fun r hr => (hrules r hr).1
      have hlocal := Rule.everywhereIn_iff.2 fun r hr => (hrules r hr).2
      refine Plan.verdict_of_success (.connect rfl (Rule.everywhere_plans Rule.shapes_isAsserted .root hassert))
        (.connect rfl (Rule.everywhere_plans Rule.shapes_staysHere .root hlocal)) fun l cur hl => ?_
      cases hl with
      | connect hp hl => exact verdict_skipped (hskips l cur (.within hentry (.connect hp hl)))
    rw [Plan.verdict_connect] at hplans
    rw [Option.map_some, Option.getD_some, Plan.verdict_connect]
    exact congrArg Status.negate hplans

/-- Where a pass comes only to leaves that its filter leaves out, a rule that negates nothing is not
violated, and if the pass fails, a negation that it has come to does. The negation of rules that
neither negate nor fan out is always violated there, whatever the object and the candidate hold. -/
theorem status_unconcerned (v : Validator) (o : Object) (f : Filter) (hempty : v.terms.settings.allEmpty ≠ .fail)
    (hskips : ∀ l cur, (v.rule.plan .root).Reaches (v.chain f) (.start o) (.ask l) cur → f.skips l = true) :
    (v.rule.isPositive = true → (v.run o f).status ≠ .fail) ∧
    ((v.run o f).status = .fail → ∃ q cur, (v.rule.plan .root).Reaches (v.chain f) (.start o) q cur ∧
      q.verdict (v.chain f) cur = .fail ∧ q.negates = true) ∧
    ∀ rules, v.rule = .group .not rules → (∀ r ∈ rules, r.isPositive = true ∧ r.isLocal = true) →
      (v.run o f).status = .fail := by
  refine ⟨fun hpositive hfail => ?_, exists_negation_of_fail hempty hskips, fun rules hrule hrules => ?_⟩
  · obtain ⟨q, cur, hq, -, hnegates⟩ := exists_negation_of_fail hempty hskips hfail
    have hasserts := ((Rule.everywhere_plan Rule.shapes_isAsserted .root hpositive).of_reaches hq).self
    rw [hasserts] at hnegates
    cases hnegates
  · exact status_negation hrule hskips hrules

/-- Nothing is asked about a note, though the prices are bad; but a note cannot be written because
the currency must not be the pound. -/
theorem status_unconcerned_note :
    let prices : Rule := .bind { path := [.name "items", .expand (.each .all), .name "price"] }
      (.condition (.compare .gt) (.value (.int 0)))
    let pound : Rule := .bind { path := [.name "currency"] } (.condition (.compare .eq) (.value (.str "GBP")))
    let terms : Terms := { settings := { existence := .abort } }
    let v : Validator := { rule := .group .or [prices, .group .and [prices]], terms }
    let w : Validator := { rule := .not pound, terms }
    let o : Object := .json (.object [("currency", .str "EUR"), ("items", .list [.object [("price", .int (-1))]])])
    let m : Member := { path := [.name "note"] }
    (v.terms.settings.allEmpty ≠ .fail ∧ v.rule.isPositive = true ∧
      (∀ r ∈ [pound], r.isPositive = true ∧ r.isLocal = true) ∧
      (∀ l cur, (v.rule.plan .root).Reaches (v.chain (.member m)) (.start o) (.ask l) cur →
        Filter.skips (.member m) l = true) ∧
      ∀ l cur, (w.rule.plan .root).Reaches (w.chain (.candidate m o false)) (.start o) (.ask l) cur →
        Filter.skips (.candidate m o false) l = true) ∧
    (v.validateMember o m).status ≠ .fail ∧ (w.prevalidate o m o).status = .fail := by
  intro prices pound terms v w o m
  have hempty : v.terms.settings.allEmpty ≠ .fail := by decide
  have hprice : ∀ c cur l cur', (prices.plan .root).Reaches c cur (.ask l) cur' →
      Filter.skips (.member m) l = true := fun c cur l cur' hl => by
    cases hl with | forEach _ _ _ hl => cases hl; rfl
  have hv : ∀ l cur, (v.rule.plan .root).Reaches (v.chain (.member m)) (.start o) (.ask l) cur →
      Filter.skips (.member m) l = true := fun l cur hl => by
    cases hl with | within _ hl => cases hl with | connect hp hl =>
    rcases List.mem_cons.1 (mem_of_mem_upTo hp) with rfl | hp
    · exact hprice _ _ l cur hl
    · cases List.mem_singleton.1 hp
      cases hl with | within _ hl => cases hl with | connect hp hl =>
      cases List.mem_singleton.1 (mem_of_mem_upTo hp)
      exact hprice _ _ l cur hl
  have hw : ∀ l cur, (w.rule.plan .root).Reaches (w.chain (.candidate m o false)) (.start o) (.ask l) cur →
      Filter.skips (.candidate m o false) l = true := fun l cur hl => by
    cases hl with | within _ hl => cases hl with | connect hp hl =>
    cases List.mem_singleton.1 (mem_of_mem_upTo hp)
    cases hl; rfl
  have hpositive : v.rule.isPositive = true := by decide
  have hpound : ∀ r ∈ [pound], r.isPositive = true ∧ r.isLocal = true := by decide
  refine ⟨⟨hempty, hpositive, hpound, hv, hw⟩, ?_, ?_⟩
  · exact (status_unconcerned v o (.member m) hempty hv).1 hpositive
  · exact (status_unconcerned w o (.candidate m o false) hempty hw).2.2 [pound] rfl hpound

/-- A value must differ from another, and is no longer accepted beside it. -/
theorem status_unconcerned_negated :
    let v : Validator := { rule := .not (.bind { path := [.name "a"] } (.condition (.compare .eq) (.value (.int 1)))) }
    let o : Object := .json (.object [("a", .int 2), ("b", .int 0)])
    let m : Member := { path := [.name "b"] }
    v.terms.settings.allEmpty ≠ .fail ∧
      (∀ l cur, (v.rule.plan .root).Reaches (v.chain (.member m)) (.start o) (.ask l) cur →
        Filter.skips (.member m) l = true) ∧
      (v.validate o).status = .success ∧ (v.validateMember o m).status = .fail := by
  intro v o m
  refine ⟨by decide, fun l cur hl => ?_, by decide, by decide⟩
  cases hl with | within _ hl => cases hl with | connect hp hl =>
  cases List.mem_singleton.1 (mem_of_mem_upTo hp)
  cases hl; rfl

end Validator

end Conform
