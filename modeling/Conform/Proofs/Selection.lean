import Conform.Proofs.Families
import Conform.Proofs.Readings
import Conform.Proofs.Telling
import Conform.Proofs.Throughout
import Mathlib.Order.Lattice

/-!
# Selecting a member

Statuses are ordered: to be violated is worst, and not to apply is worse than to hold. All folds are
monotone (`Status.allOf_mono`, `Status.anyOf_mono`, `Quantifier.fold_mono`), and so is every plan that
negates nothing (`Plan.verdict_mono`). A filter on a member answers some leaves with a success and the
others as they are, so it can only relax such a rule (`Validator.validateMember_relaxes`).
-/

namespace Conform

/-! ### The order of statuses -/

namespace Status

def rank : Status → Nat
  | fail => 0
  | ignore => 1
  | success => 2

theorem rank_injective : Function.Injective rank := by
  intro s t h
  cases s <;> cases t <;> first | rfl | cases h

instance : LinearOrder Status :=
  LinearOrder.lift' rank rank_injective

theorem fail_le (s : Status) : fail ≤ s :=
  Nat.zero_le _

theorem le_success (s : Status) : s ≤ success := by
  cases s <;> decide

theorem eq_fail_of_le {s : Status} (h : s ≤ fail) : s = fail :=
  le_antisymm h (fail_le s)

theorem eq_success_of_le {s : Status} (h : success ≤ s) : s = success :=
  le_antisymm (le_success s) h

variable {ss ts : List Status}

theorem any_isFail_of_le (h : List.Forall₂ (· ≤ ·) ss ts) (ht : ts.any isFail = true) : ss.any isFail = true := by
  induction h with
  | nil => cases ht
  | @cons s t ss ts hle _ ih =>
    rw [List.any_cons, Bool.or_eq_true] at ht ⊢
    refine ht.imp (fun hfail => ?_) ih
    rw [eq_of_beq hfail] at hle
    exact beq_iff_eq.2 (eq_fail_of_le hle)

theorem any_isSuccess_of_le (h : List.Forall₂ (· ≤ ·) ss ts) (hs : ss.any isSuccess = true) :
    ts.any isSuccess = true := by
  induction h with
  | nil => cases hs
  | @cons s t ss ts hle _ ih =>
    rw [List.any_cons, Bool.or_eq_true] at hs ⊢
    refine hs.imp (fun hsuccess => ?_) ih
    rw [eq_of_beq hsuccess] at hle
    exact beq_iff_eq.2 (eq_success_of_le hle)

theorem isEmpty_of_le (h : List.Forall₂ (· ≤ ·) ss ts) : ss.isEmpty = ts.isEmpty := by
  cases h <;> rfl

theorem allOf_mono (h : List.Forall₂ (· ≤ ·) ss ts) : allOf ss ≤ allOf ts := by
  have hfail := any_isFail_of_le h
  have hsuccess := any_isSuccess_of_le h
  rw [allOf, allOf, isEmpty_of_le h]
  revert hfail hsuccess
  generalize ss.any isFail = sf, ts.any isFail = tf, ss.any isSuccess = su, ts.any isSuccess = tu, ts.isEmpty = e
  revert sf tf su tu e
  decide

theorem anyOf_mono (h : List.Forall₂ (· ≤ ·) ss ts) : anyOf ss ≤ anyOf ts := by
  have hfail := any_isFail_of_le h
  have hsuccess := any_isSuccess_of_le h
  rw [anyOf, anyOf, isEmpty_of_le h]
  revert hfail hsuccess
  generalize ss.any isFail = sf, ts.any isFail = tf, ss.any isSuccess = su, ts.any isSuccess = tu, ts.isEmpty = e
  revert sf tf su tu e
  decide

end Status

theorem Quantifier.fold_mono (q : Quantifier) (allEmpty : Status) {ss ts : List Status}
    (h : List.Forall₂ (· ≤ ·) ss ts) : q.fold allEmpty ss ≤ q.fold allEmpty ts := by
  have hempty := Status.isEmpty_of_le h
  cases q with
  | all =>
    rw [fold, fold, hempty]
    split
    · exact le_refl _
    · exact Status.allOf_mono h
  | any =>
    rw [fold, fold, hempty]
    split
    · exact le_refl _
    · exact Status.anyOf_mono h

theorem Connective.fold_mono {k : Connective} (hk : k ≠ .not) {ss ts : List Status} (h : List.Forall₂ (· ≤ ·) ss ts) :
    k.fold ss ≤ k.fold ts := by
  cases k with
  | and => exact Status.allOf_mono h
  | or => exact Status.anyOf_mono h
  | not => exact absurd rfl hk

/-! ### Plans -/

/-- The second chain asks the same from the same places, and is never the stricter one about a leaf or about
what passes. -/
structure Chain.Relaxes (c c' : Chain) : Prop where
  terms : c.terms = c'.terms
  passes : ∀ m s, c.passes m s = true → s = .success
  passes' : ∀ m s, c'.passes m s = s.isSuccess
  ask : ∀ cur l, Pass.verdict (c.ask cur l) ≤ Pass.verdict (c'.ask cur l)
  enters : ∀ cur b, (∀ scope rules, b ≠ .group .not scope rules) → c.enters? cur b = c'.enters? cur b

namespace Plan
variable {c c' : Chain} {container : Member} {e : Expansion} {body : Member → Plan}

theorem elementsVerdict_mono (h : c.Relaxes c') (hbody : ∀ scope cur, (body scope).verdict c cur ≤ (body scope).verdict c' cur)
    (cur : Cursor) : elementsVerdict c container e body cur ≤ elementsVerdict c' container e body cur := by
  cases hfound : cur.found? c.terms container.path e with
  | none =>
    have hfound' : cur.found? c'.terms container.path e = none := h.terms ▸ hfound
    rw [elementsVerdict, elementsVerdict, hfound, hfound']
  | some found =>
    have hfound' : cur.found? c'.terms container.path e = some found := h.terms ▸ hfound
    cases hq : e.quantifier with
    | all =>
      rw [elementsVerdict_all hq hfound, elementsVerdict_all hq hfound']
      show _ ≤ Quantifier.fold .all c'.terms.settings.allEmpty _
      rw [← h.terms]
      refine Quantifier.fold_mono _ _ (List.forall₂_map_left_iff.2 (List.forall₂_map_right_iff.2 ?_))
      exact List.forall₂_same.2 fun x _ => hbody _ _
    | any =>
      rw [elementsVerdict_any hq hfound, elementsVerdict_any hq hfound']
      split
      next hpass =>
        -- what passes succeeds, so it also succeeds and passes for the second chain
        obtain ⟨x, hx, hpass⟩ := List.any_eq_true.1 hpass
        have hle := hbody (container.element x.1 e.display?) (cur.atElement container x)
        rw [h.passes _ _ hpass] at hle
        rw [if_pos]
        exact List.any_eq_true.2 ⟨x, hx, by rw [h.passes', Status.eq_success_of_le hle]; rfl⟩
      next =>
        split
        · exact Status.fail_le _
        next hfail =>
          split
          · decide
          · rw [if_neg]
            intro hfail'
            obtain ⟨x, hx, hx'⟩ := List.any_eq_true.1 hfail'
            have hle := hbody (container.element x.1 e.display?) (cur.atElement container x)
            rw [eq_of_beq hx'] at hle
            exact hfail (List.any_eq_true.2 ⟨x, hx, by rw [Status.eq_fail_of_le hle]; rfl⟩)

/-- A plan that negates nothing is monotone in the answers to its leaves. -/
theorem verdict_mono [c.HandlerFree] [c'.HandlerFree] (h : c.Relaxes c') {p : Plan}
    (hp : p.Everywhere (·.negates = false)) (cur : Cursor) :
    p.verdict c cur ≤ p.verdict c' cur := by
  induction hp generalizing cur with
  | ask => exact h.ask cur _
  | @connect k plans hk _ ih =>
    have hnot : k ≠ .not := by
      rintro rfl
      cases hk
    rw [verdict_connect, verdict_connect]
    refine Connective.fold_mono hnot (List.forall₂_map_left_iff.2 (List.forall₂_map_right_iff.2 ?_))
    exact List.forall₂_same.2 fun p hp => ih p hp cur
  | @within b body hb _ ih =>
    have hnot : ∀ scope rules, b ≠ .group .not scope rules := by
      rintro scope rules rfl
      cases hb
    rw [verdict_within, verdict_within, h.enters cur b hnot]
    cases c'.enters? cur b with
    | none => exact le_refl _
    | some entry => exact ih entry
  | @forEach container e body _ _ ih =>
    rw [verdict_forEach, verdict_forEach, h.enters cur _ fun _ _ hb => by cases hb]
    cases c'.enters? cur (.elements e.quantifier container) with
    | none => exact le_refl _
    | some entry => exact elementsVerdict_mono h ih entry

end Plan

/-! ### The filter on a member -/

namespace Validator
variable {v : Validator} {m : Member} {o : Object}

theorem ask_selected (cur : Cursor) (l : Leaf) :
    (v.chain (.member m)).ask cur l =
      if Layer.covers m.path l then (v.chain .everything).ask cur l else pure .success := by
  have hterms : (v.chain .everything).terms = (v.chain (.member m)).terms := rfl
  rw [ask_everything, Chain.askThrough_congr hterms, Chain.ask, layers_chain]
  rfl

/-- Behind the filter nothing stands before a branch that is no negation. -/
theorem entersThrough_behind (v : Validator) (c : Chain) {b : Branch} (hb : ∀ scope rules, b ≠ .group .not scope rules)
    (cur : Cursor) : c.entersThrough v.behind cur b = some cur := by
  rw [behind]
  cases v.terms.settings.existence with
  | optimistic | safe => rfl
  | abort =>
    cases b with
    | elements | explained => rfl
    | group k scope rules =>
      cases k with
      | and | or => rfl
      | not => exact absurd rfl (hb scope rules)

theorem relaxes_member (v : Validator) (m : Member) : (v.chain .everything).Relaxes (v.chain (.member m)) where
  terms := rfl
  passes m s h := by
    rw [v.passes_chain] at h
    exact eq_of_beq h
  passes' := v.passes_chain _
  ask := by
    intro cur l
    rw [ask_selected]
    split
    · exact le_refl _
    · exact Status.le_success _
  enters := by
    intro cur b hb
    rw [Chain.enters?, Chain.enters?, chain_eq, chain_eq]
    exact (v.entersThrough_behind _ hb cur).trans (v.entersThrough_behind _ hb cur).symm

theorem carry_root (t : Terms) (back : List Layer) :
    Chain.Carry Pass.Same (fun present => (Layer.single []).beforeIf back present) t := by
  refine Pass.layered_same.carry_insert [] back t (fun _ _ => rfl) ?_ fun _ _ hback => hback
  intro c l cur hback
  have hcovers : Layer.covers [] l = true := by rw [Layer.covers, Path.covers_nil, Bool.true_or]
  show Chain.askThrough _ (.single [] :: back) cur l = _
  rw [Chain.askThrough, if_pos hcovers]
  exact hback

theorem validateMember_root (hm : m.isRoot = true) : v.validateMember o m = v.validate o := by
  have hpath : m.path = [] := List.isEmpty_iff.1 hm
  have hlayers : (Filter.member m).layers = [.single []] := by rw [Filter.layers, hpath]
  refine run_congr rfl ?_
  rw [chain_eq, chain_eq, hlayers]
  exact (carry_root v.terms v.behind).plan (v.rule.plan .root) (.start o)

end Validator

/-! ### The leaves that are told -/

namespace Outline
variable {ok : Leaf → Prop} {ts us : List Outline}

theorem forall_leavesOf_nil : ∀ l ∈ leavesOf [], ok l :=
  fun _ h => absurd h List.not_mem_nil

theorem forall_leavesOf_append (hts : ∀ l ∈ leavesOf ts, ok l) (hus : ∀ l ∈ leavesOf us, ok l) :
    ∀ l ∈ leavesOf (ts ++ us), ok l := by
  rw [leavesOf_append]
  exact List.forall_mem_append.2 ⟨hts, hus⟩

theorem forall_leavesOf_flatMap {α : Type} {xs : List α} {f : α → List Outline}
    (h : ∀ x ∈ xs, ∀ l ∈ leavesOf (f x), ok l) : ∀ l ∈ leavesOf (xs.flatMap f), ok l := by
  induction xs with
  | nil => exact forall_leavesOf_nil
  | cons x xs ih =>
    obtain ⟨hx, hxs⟩ := List.forall_mem_cons.1 h
    exact forall_leavesOf_append hx (ih hxs)

mutual

theorem exists_leaf_of_mem_accused : ∀ {t : Outline} {around : List FrameKind} {m : Member}, m ∈ accused around t →
    ∃ l ∈ t.leaves, l.member = m
  | leaf s l, around, m, h => by
    rw [accused] at h
    split at h
    · exact ⟨l, List.mem_singleton_self l, (List.mem_singleton.1 h).symm⟩
    · cases h
  | frame kind inner s, around, m, h => by
    have hinner : m ∈ accusedOf (kind :: around) inner := h
    exact exists_leaf_of_mem_accusedOf hinner

theorem exists_leaf_of_mem_accusedOf : ∀ {ts : List Outline} {around : List FrameKind} {m : Member},
    m ∈ accusedOf around ts → ∃ l ∈ leavesOf ts, l.member = m
  | [], _, _, h => by cases h
  | t :: ts, around, m, h => by
    rcases List.mem_append.1 h with h | h
    · obtain ⟨l, hl, hm⟩ := exists_leaf_of_mem_accused h
      exact ⟨l, List.mem_append_left _ hl, hm⟩
    · obtain ⟨l, hl, hm⟩ := exists_leaf_of_mem_accusedOf h
      exact ⟨l, List.mem_append_right _ hl, hm⟩

end

theorem exists_leaf_of_mem_failed (locale : Locale) (inline : Outline → Bool) {path : String}
    (h : path ∈ (report locale inline ts).failed) : ∃ l ∈ leavesOf ts, l.member.dotted = path := by
  obtain ⟨m, hm, rfl⟩ := List.mem_map.1 (List.mem_eraseDups.1 h)
  obtain ⟨l, hl, rfl⟩ := exists_leaf_of_mem_accusedOf (List.mem_of_mem_filter hm)
  exact ⟨l, hl, rfl⟩

end Outline

namespace Chain
variable {c : Chain} {ok : Leaf → Prop}

open Outline

theorem leaves_precheckTold (hask : ∀ cur l, ∀ l' ∈ leavesOf (c.askTold cur l), ok l') (cur : Cursor) (scope : Member)
    (rules : List Rule) : ∀ l ∈ leavesOf (c.precheckTold cur scope rules), ok l := by
  have hifAny : ∀ question?, ∀ l ∈ leavesOf (c.askIfAnyTold question?), ok l := by
    intro question?
    cases question? with
    | none => exact forall_leavesOf_nil
    | some q => exact hask q.1 q.2
  refine forall_leavesOf_append (hifAny _) ?_
  split
  · exact hifAny _
  · exact forall_leavesOf_nil

theorem leaves_prologueThrough (hask : ∀ cur l, ∀ l' ∈ leavesOf (c.askTold cur l), ok l') (layers : List Layer)
    (cur : Cursor) (b : Branch) : ∀ l ∈ leavesOf (c.prologueThrough layers cur b), ok l := by
  induction layers generalizing cur with
  | nil => exact forall_leavesOf_nil
  | cons layer rest ih =>
    cases layer with
    | recorder | handler | single | reporting => exact ih cur
    | candidate cand => cases b <;> exact ih _
    | guard abort =>
      cases abort with
      | false => exact ih cur
      | true =>
        cases b with
        | elements | explained => exact ih cur
        | group k scope rules =>
          cases k with
          | and | or => exact ih cur
          | not =>
            refine forall_leavesOf_append (leaves_precheckTold hask cur scope rules) ?_
            split
            · exact forall_leavesOf_nil
            · exact ih cur

theorem leaves_branchTold (hask : ∀ cur l, ∀ l' ∈ leavesOf (c.askTold cur l), ok l') {told : Cursor → List Outline}
    (htold : ∀ cur, ∀ l ∈ leavesOf (told cur), ok l) (cur : Cursor) (b : Branch) (answer : Cursor → Status) :
    ∀ l ∈ leavesOf (c.branchTold cur b told answer), ok l := by
  refine forall_leavesOf_append (leaves_prologueThrough hask c.layers cur b) ?_
  cases c.enters? cur b with
  | none => exact forall_leavesOf_nil
  | some entry =>
    rw [Option.map_some, Option.toList_some, leavesOf_singleton, Outline.leaves]
    exact htold entry

end Chain

/-- What holds of the leaves that are told when leaves are asked holds of all that a plan tells. -/
theorem Plan.leaves_told {c : Chain} {ok : Leaf → Prop}
    (hask : ∀ cur l, ∀ l' ∈ Outline.leavesOf (c.askTold cur l), ok l') (p : Plan) (cur : Cursor) :
    ∀ l ∈ Outline.leavesOf (p.told c cur), ok l := by
  induction p generalizing cur with
  | ask l => exact hask cur l
  | connect k plans ih =>
    rw [told, toldBy_eq]
    exact Outline.forall_leavesOf_flatMap fun p hp => ih p (mem_of_mem_upTo hp) cur
  | within b body ih => exact Chain.leaves_branchTold hask ih cur b _
  | forEach container e body ih =>
    refine Chain.leaves_branchTold hask (fun cur => ?_) cur _ _
    exact Outline.forall_leavesOf_flatMap fun x _ => ih _ _

namespace Validator
variable {v : Validator} {m : Member} {o : Object}

/-- Behind the filter a leaf is told as it is, if no question is put in its place. -/
theorem eq_of_mem_told_behind {c : Chain} (hpolicy : v.terms.settings.existence ≠ .abort) {cur : Cursor} {l l' : Leaf}
    (h : l' ∈ Outline.leavesOf ((c.routeThrough v.behind cur l).told c.registry)) : l' = l := by
  rw [behind] at h
  cases hexistence : v.terms.settings.existence with
  | abort => exact absurd hexistence hpolicy
  | optimistic =>
    rw [hexistence] at h
    exact List.mem_singleton.1 h
  | safe =>
    rw [hexistence, Layer.ofExistence?, Option.toList_some, List.singleton_append, Chain.routeThrough] at h
    rcases c.guarded_safe cur l with hguard | ⟨hguard, -⟩
    · rw [hguard] at h
      exact List.mem_singleton.1 h
    · rw [hguard] at h
      cases h

theorem covers_of_mem_askTold (hpolicy : v.terms.settings.existence ≠ .abort) {cur : Cursor} {l l' : Leaf}
    (h : l' ∈ Outline.leavesOf ((v.chain (.member m)).askTold cur l)) : Layer.covers m.path l' = true := by
  have hroute : (v.chain (.member m)).route cur l =
      if Layer.covers m.path l then (v.chain (.member m)).routeThrough v.behind cur l else .settled .success := by
    rw [Chain.route, chain_eq]
    rfl
  rw [Chain.askTold, hroute] at h
  cases hcovers : Layer.covers m.path l with
  | false =>
    rw [hcovers] at h
    cases h
  | true =>
    rw [hcovers] at h
    rw [eq_of_mem_told_behind hpolicy h, hcovers]

/-- To ask only about one member can only relax a rule that negates nothing, and to ask only about
the root leaves nothing out. Where nothing is asked in the place of a leaf, a report about a member
is read off leaves that its path covers. -/
theorem validateMember_relaxes (v : Validator) (o : Object) (m : Member) :
    (v.rule.isPositive = true → (v.validate o).status ≤ (v.validateMember o m).status ∧
      ((v.validateMember o m).status = .fail → (v.validate o).status = .fail)) ∧
    (m.isRoot = true → v.validateMember o m = v.validate o) ∧
    (v.terms.settings.existence ≠ .abort →
      (v.validateMember o m).text = (Outline.report v.locale Outline.isWorded (v.told o (.member m))).text ∧
      (v.validateMember o m).failed = (Outline.report v.locale Outline.isWorded (v.told o (.member m))).failed ∧
      (∀ path ∈ (v.validateMember o m).failed,
        ∃ l ∈ Outline.leavesOf (v.told o (.member m)), l.member.dotted = path) ∧
      ∀ l ∈ Outline.leavesOf (v.told o (.member m)), Layer.covers m.path l = true) := by
  refine ⟨fun hpositive => ?_, validateMember_root, fun hpolicy => ?_⟩
  · have hasserts : (v.rule.plan .root).Everywhere (·.negates = false) :=
      Rule.everywhere_plan Rule.shapes_isAsserted .root hpositive
    have hle : (v.validate o).status ≤ (v.validateMember o m).status := by
      rw [validate, validateMember, status_run, status_run]
      exact Plan.verdict_mono (v.relaxes_member m) hasserts _
    exact ⟨hle, fun hfail => Status.eq_fail_of_le (hfail ▸ hle)⟩
  · have hreport := v.run_eq_report o (.member m)
    rw [validateMember, hreport]
    refine ⟨rfl, rfl, fun path hpath => Outline.exists_leaf_of_mem_failed v.locale Outline.isWorded hpath, ?_⟩
    exact Plan.leaves_told (fun cur l l' hl' => covers_of_mem_askTold hpolicy hl') _ _

/-- A note is missing, but not from the items. -/
theorem validateMember_relaxes_items :
    let r : Rule := .group .and
      [.bind { path := [.name "items", .expand (.each .all), .name "price"] } (.condition (.compare .gt) (.value (.int 0))),
       .bind { path := [.name "note"] } (.presence true)]
    let v : Validator := { rule := r, terms := { settings := { existence := .safe } } }
    let o : Object := .json (.object [("items", .list [.object [("price", .int 3)]])])
    let m : Member := { path := [.name "items", .expand (.each .any)] }
    (v.rule.isPositive = true ∧ Member.root.isRoot = true ∧ v.terms.settings.existence ≠ .abort) ∧
    (v.validate o).status ≤ (v.validateMember o m).status ∧
    v.validateMember o .root = v.validate o ∧
    (∀ l ∈ Outline.leavesOf (v.told o (.member m)), Layer.covers m.path l = true) ∧
    (v.validate o).status = .fail ∧ (v.validateMember o m).status = .success := by
  intro r v o m
  have hpositive : v.rule.isPositive = true := by decide
  have hroot : Member.root.isRoot = true := rfl
  have hpolicy : v.terms.settings.existence ≠ .abort := by decide
  exact ⟨⟨hpositive, hroot, hpolicy⟩, ((validateMember_relaxes v o m).1 hpositive).1,
    (validateMember_relaxes v o .root).2.1 hroot, ((validateMember_relaxes v o m).2.2 hpolicy).2.2.2, by decide, by decide⟩

end Validator

end Conform
