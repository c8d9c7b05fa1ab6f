import Conform.Proofs.Selection

/-!
# Demands for any element, strictly

A demand for any element succeeds exactly if a pass comes to an element that passes
(`Plan.verdict_any_eq_success_iff`). In a strict pass over a candidate that is one that succeeds and lies
on the way to the candidate or inside it. Nothing else is different in a strict pass, so it can only
tighten a rule without negations (`Validator.prevalidateStrict_tightens`).
-/

namespace Conform

namespace Plan
variable {c : Chain} {container : Member} {e : Expansion} {body : Member → Plan} {cur entry : Cursor}
  {x : Path × Object}

/-- The answer for an element of a container, seen from where its elements are looked for. -/
def elementVerdict (c : Chain) (container : Member) (e : Expansion) (body : Member → Plan) (entry : Cursor)
    (x : Path × Object) : Status :=
  (body (container.element x.1 e.display?)).verdict c (entry.atElement container x)

/-- A pass that makes the demand looks for the elements from `entry` and comes to `x`. -/
structure Visits (c : Chain) (container : Member) (e : Expansion) (body : Member → Plan) (cur entry : Cursor)
    (x : Path × Object) : Prop where
  enters : c.enters? cur (.elements e.quantifier container) = some entry
  visited : ∃ found, entry.found? c.terms container.path e = some found ∧
    x ∈ upTo (fun x => c.ends e.quantifier (container.element x.1 e.display?) (elementVerdict c container e body entry x))
      found

theorem elementsVerdict_any_eq_success_iff (hq : e.quantifier = .any) :
    elementsVerdict c container e body entry = .success ↔
      ∃ found, entry.found? c.terms container.path e = some found ∧
        ∃ x ∈ found, c.passes (container.element x.1 e.display?) (elementVerdict c container e body entry x) = true := by
  cases hfound : entry.found? c.terms container.path e with
  | none =>
    rw [elementsVerdict, hfound]
    constructor
    · intro h
      cases h
    · rintro ⟨_, h, -⟩
      cases h
  | some found =>
    rw [elementsVerdict_any hq hfound]
    constructor
    · intro h
      split at h
      next hpass => exact ⟨found, rfl, List.any_eq_true.1 hpass⟩
      · split at h <;> cases h
    · rintro ⟨_, ⟨⟩, hpass⟩
      exact if_pos (List.any_eq_true.2 hpass)

/-- A demand for any element succeeds exactly if it comes to an element that passes. -/
theorem verdict_any_eq_success_iff [c.HandlerFree] (hq : e.quantifier = .any) :
    (forEach container e body).verdict c cur = .success ↔
      ∃ entry x, Visits c container e body cur entry x ∧
        c.passes (container.element x.1 e.display?) (elementVerdict c container e body entry x) = true := by
  have hends : ∀ scope s, c.ends e.quantifier scope s = c.passes scope s := fun scope s => by
    rw [hq]
    rfl
  obtain ⟨entry, hentry⟩ := c.enters?_elements cur e.quantifier container
  rw [verdict_forEach, hentry, Option.map_some, Option.getD_some, elementsVerdict_any_eq_success_iff hq]
  constructor
  · rintro ⟨found, hfound, hpass⟩
    simp only [← hends] at hpass
    obtain ⟨x, hx, hpass⟩ := exists_mem_upTo hpass
    exact ⟨entry, x, ⟨hentry, found, hfound, hx⟩, (hends _ _).symm.trans hpass⟩
  · rintro ⟨_, x, ⟨henters, found, hfound, hx⟩, hpass⟩
    obtain rfl := Option.some.inj (hentry.symm.trans henters)
    exact ⟨found, hfound, x, mem_of_mem_upTo hx, hpass⟩

end Plan

/-! ### Strict passes -/

namespace Validator
variable (v : Validator) (o : Object) (m : Member) (candidate : Object)

theorem passes_strict (element : Member) (s : Status) :
    (v.chain (.candidate m candidate true)).passes element s =
      (s.isSuccess && (Path.covers m.path element.path || Path.covers element.path m.path)) := by
  rw [passes_chain]
  rfl

theorem relaxes_strict :
    (v.chain (.candidate m candidate true)).Relaxes (v.chain (.candidate m candidate false)) where
  terms := rfl
  passes element s h := by
    rw [passes_strict, Bool.and_eq_true] at h
    exact eq_of_beq h.1
  passes' := v.passes_chain _
  ask cur l := by
    have hterms : (v.chain (.candidate m candidate true)).terms = (v.chain (.candidate m candidate false)).terms := rfl
    refine le_of_eq (congrArg Pass.verdict ?_)
    rw [Chain.ask, Chain.ask, Chain.askThrough_congr hterms, layers_chain, layers_chain]
    rfl
  enters := by
    intro cur b hb
    rw [Chain.enters?, Chain.enters?, chain_eq, chain_eq]
    cases b <;> exact (v.entersThrough_behind _ hb _).trans (v.entersThrough_behind _ hb _).symm

/-- A strict pass is no milder on a rule without negations, and in it a demand for any element, whatever the
rule that makes it, succeeds exactly if it comes to one that succeeds and that the member covers or that
leads to the member. -/
theorem prevalidateStrict_tightens :
    (v.rule.isPositive = true →
      (v.prevalidateStrict o m candidate).status ≤ (v.prevalidate o m candidate).status) ∧
    let c := v.chain (.candidate m candidate true)
    ∀ (container : Member) (e : Expansion) (body : Member → Plan) (cur : Cursor), e.quantifier = .any →
      ((Plan.forEach container e body).verdict c cur = .success ↔
        ∃ entry x, Plan.Visits c container e body cur entry x ∧
          Plan.elementVerdict c container e body entry x = .success ∧
          (Path.covers m.path (container.path ++ x.1) = true ∨ Path.covers (container.path ++ x.1) m.path = true)) := by
  refine ⟨fun hpositive => ?_, fun container e body cur hq => ?_⟩
  · have hasserts : (v.rule.plan .root).Everywhere (·.negates = false) :=
      Rule.everywhere_plan Rule.shapes_isAsserted .root hpositive
    rw [prevalidateStrict, prevalidate, status_run, status_run]
    exact Plan.verdict_mono (v.relaxes_strict m candidate) hasserts _
  · have hpath : ∀ x : Path × Object, (container.element x.1 e.display?).path = container.path ++ x.1 := fun _ => rfl
    rw [Plan.verdict_any_eq_success_iff hq]
    simp only [passes_strict, hpath, Bool.and_eq_true, Bool.or_eq_true, Status.isSuccess, beq_iff_eq]

/-- Every order is to have the tag 1, and the second tag of the first order is about to become 3 or 1. -/
theorem prevalidateStrict_tightens_tags :
    let first : Rule := .condition (.compare .eq) (.value (.int 1))
    let v : Validator :=
      { rule := .bind { path := [.name "orders", .expand (.each .all), .name "tags", .expand (.each .any)] } first }
    let o : Object := .json (.object [("orders", .list [.object [("tags", .list [.int 1, .int 2])],
      .object [("tags", .list [.int 1])]])])
    let m : Member := { path := [.name "orders", .index 0, .name "tags", .index 1] }
    let c := v.chain (.candidate m (.json (.int 1)) true)
    let tags : Member := { path := [.name "orders", .index 0, .name "tags"] }
    let body := first.plan
    (v.rule.isPositive = true ∧ (Expansion.each .any).quantifier = .any) ∧
      (v.prevalidateStrict o m (.json (.int 3))).status ≤ (v.prevalidate o m (.json (.int 3))).status ∧
      (v.prevalidateStrict o m (.json (.int 3))).status = .fail ∧
      (v.prevalidate o m (.json (.int 3))).status = .success ∧
      ∃ entry x, Plan.Visits c tags (.each .any) body (.start o) entry x ∧
        Plan.elementVerdict c tags (.each .any) body entry x = .success ∧
        (Path.covers m.path (tags.path ++ x.1) = true ∨ Path.covers (tags.path ++ x.1) m.path = true) := by
  intro first v o m c tags body
  have hpositive : v.rule.isPositive = true := by decide
  have hany : (Expansion.each .any).quantifier = .any := rfl
  have hsuccess : (Plan.forEach tags (.each .any) body).verdict c (.start o) = .success := by decide
  exact ⟨⟨hpositive, hany⟩, (prevalidateStrict_tightens v o m (.json (.int 3))).1 hpositive, by decide, by decide,
    ((prevalidateStrict_tightens v o m (.json (.int 1))).2 tags (.each .any) body (.start o) hany).1 hsuccess⟩

end Validator

end Conform
