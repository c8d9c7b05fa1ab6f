import Conform.Proofs.Elsewhere
import Conform.Proofs.Prevalidation

/-!
# Replacing what is there

Writing a place of a document that exists changes the keys of no container around it, so that rules
which only list the elements of stored containers demand the same before and after
(`Rule.steady_of_isPlain`). Such rules judge a candidate as they judge it once it is written.
-/

namespace Conform

/-! ### Rules that list stored elements -/

namespace Path

/-- Whether a path only fans out to elements, and to none of what a property has computed. -/
def isPlain : Path → Bool → Bool
  | [], _ => true
  | .expand (.each _) :: p, computed => !computed && isPlain p computed
  | .expand _ :: _, _ => false
  | .property _ :: p, _ => isPlain p true
  | _ :: p, computed => isPlain p computed

def isComputed (p : Path) : Bool :=
  p.any fun k => k.property?.isSome

end Path

namespace Rule

mutual

/-- Whether a rule only fans out to elements, and to none of what a property has computed;
`computed` tells whether its member is in a property. -/
def isPlain : Rule → Bool → Bool
  | condition .., _ | property .., _ | presence _, _ => true
  | bind m body, computed => m.path.isPlain computed && isPlain body (computed || m.path.isComputed)
  | group _ rules, computed => arePlain rules computed
  | elements (.each _) rules, computed => !computed && arePlain rules computed
  | elements _ _, _ => false
  | explain _ body, computed => isPlain body computed

def arePlain : List Rule → Bool → Bool
  | [], _ => true
  | r :: rs, computed => isPlain r computed && arePlain rs computed

end

end Rule

/-- A demand on the elements of a stored container. -/
structure Terms.Lists (d : Path × Expansion) : Prop where
  literal : d.1.Literal
  each : ∃ q, d.2 = .each q

namespace Plan
variable {t : Terms} {o : Object}

theorem lists_forEach {container : Member} {q : Quantifier} {body : Member → Plan} (hc : container.path.Literal)
    (hbody : ∀ scope : Member, scope.path.Literal → ∀ d ∈ (body scope).demands t o, Terms.Lists d) :
    ∀ d ∈ (forEach container (.each q) body).demands t o, Terms.Lists d := by
  intro d hd
  rcases mem_demands_forEach.1 hd with rfl | ⟨x, hx, hd⟩
  · exact ⟨hc, q, rfl⟩
  · have hs := Terms.literal_of_mem_found? hx
    exact hbody _ (fun k hk => (List.mem_append.1 hk).elim (hc k) (hs k)) d hd

theorem lists_along {body : Member → Plan} {path : Path} {computed : Bool} {scope : Member}
    (hpath : path.isPlain computed = true) (hscope : computed = false → scope.path.Literal)
    (hbody : ∀ scope : Member, ((computed || path.isComputed) = false → scope.path.Literal) →
      ∀ d ∈ (body scope).demands t o, Terms.Lists d) :
    ∀ d ∈ (along body path scope).demands t o, Terms.Lists d := by
  induction path generalizing computed scope with
  | nil => exact hbody scope fun hc => hscope (Bool.or_eq_false_iff.1 hc).1
  | cons k path ih =>
    cases k with
    | expand e =>
      cases e with
      | each q =>
        simp only [Path.isPlain, Bool.and_eq_true, Bool.not_eq_true'] at hpath
        exact lists_forEach (hscope hpath.1) fun scope hs => ih hpath.2 (fun _ => hs) hbody
      | tree | variadic => cases hpath
    | name | index =>
      refine ih hpath (fun hc => ?_) hbody
      exact fun l hl => (List.mem_append.1 hl).elim (hscope hc l) fun hl => List.mem_singleton.1 hl ▸ rfl
    | property p =>
      -- nothing is expanded behind a property, so the scope need not be literal any more
      refine ih hpath (fun hc => absurd hc Bool.noConfusion) fun scope _ => hbody scope fun hc => ?_
      exact absurd (Bool.or_eq_false_iff.1 hc).2 (by simp [Path.isComputed, Key.property?])

end Plan

namespace Rule
variable {t : Terms} {o : Object}

mutual

theorem lists_plan : ∀ {r : Rule} {computed : Bool} {scope : Member},
    r.isPlain computed = true → (computed = false → scope.path.Literal) →
    ∀ d ∈ (r.plan scope).demands t o, Terms.Lists d
  | condition .., _, _, _, _, _, hd | property .., _, _, _, _, _, hd | presence _, _, _, _, _, _, hd => nomatch hd
  | bind m body, _, scope, hr, hscope, d, hd => by
    simp only [isPlain, Bool.and_eq_true] at hr
    have hadopted : _ = false → (scope.adoptNames m).path.Literal := hscope
    exact Plan.lists_along hr.1 hadopted (fun _ hs => lists_plan hr.2 hs) d hd
  | group k rules, _, scope, hr, hscope, d, hd => lists_plans hr hscope d hd
  | elements (.each q) rules, _, scope, hr, hscope, d, hd => by
    simp only [isPlain, Bool.and_eq_true, Bool.not_eq_true'] at hr
    have hrules : ∀ scope : Member, scope.path.Literal →
        ∀ d ∈ (Plan.connect .and (plans rules scope)).demands t o, Terms.Lists d :=
      fun _ hs => lists_plans hr.2 fun _ => hs
    exact Plan.lists_forEach (hscope hr.1) hrules d hd
  | explain _ body, _, scope, hr, hscope, d, hd => lists_plan (r := body) hr hscope d hd

theorem lists_plans : ∀ {rs : List Rule} {computed : Bool} {scope : Member},
    arePlain rs computed = true → (computed = false → scope.path.Literal) →
    ∀ d ∈ Plan.demandsOf t o (plans rs scope), Terms.Lists d
  | [], _, _, _, _, _, hd => nomatch hd
  | r :: rs, _, scope, hr, hscope, d, hd => by
    simp only [arePlain, Bool.and_eq_true] at hr
    rcases List.mem_append.1 hd with hd | hd
    · exact lists_plan hr.1 hscope d hd
    · exact lists_plans hr.2 hscope d hd

end

end Rule

/-! ### Writing a place that exists -/

theorem Json.stores_put {r : Registry} {candidate doc doc' : Json} {p : Path}
    (h : put candidate p doc = (doc', true)) (hdoc : doc.WellFormed) (hc : candidate.WellFormed) :
    r.Stores (.json doc) (.json doc') p (.json candidate) where
  literal := literal_of_put h
  at_eq := at?_put h
  wellFormed_before := by rwa [Object.WellFormed]
  wellFormed_after := by rw [Object.WellFormed]; exact wellFormed_put h hdoc hc

theorem Terms.found?_each (t : Terms) (o : Object) (p : Path) (q : Quantifier) :
    (t.found? o p (.each q)).map (·.map Prod.fst) =
      ((t.registry.at? o p).bind Object.elementKeys?).map (·.map fun k => [k]) := by
  rw [found?, Option.map_bind, Option.map_bind]
  exact Option.bind_congr fun x _ => Registry.found?_each_places ..

theorem Terms.Lists.settled {t : Terms} {candidate doc doc' : Json} {m : Path} {d : Path × Expansion}
    (hd : Lists d) (hput : Json.put candidate m doc = (doc', true)) (hdoc : doc.WellFormed)
    (hm : (t.registry.at? (.json doc) m).isSome) : t.Settled (.json doc) (.json doc') m d.1 d.2 := by
  obtain ⟨q, hq⟩ := hd.each
  rw [hq]
  by_cases hc : m <+: d.1
  · exact .inl hc
  refine .inr ⟨?_, fun x hx hpre => eq_of_mem_found? rfl hc hx hpre⟩
  rw [t.found?_each, t.found?_each, Json.elementKeys?_put hput hdoc hm hd.literal hc]

namespace Rule
variable {t : Terms} {candidate doc doc' : Json} {m : Path}

theorem steady_of_isPlain {r : Rule} (hr : r.isPlain false = true) (hput : Json.put candidate m doc = (doc', true))
    (hdoc : doc.WellFormed) (hm : (t.registry.at? (.json doc) m).isSome) : r.Steady t (.json doc) (.json doc') m := by
  intro d hd
  exact (lists_plan hr (fun _ _ hk => absurd hk List.not_mem_nil) d hd).settled hput hdoc hm

end Rule

/-- A candidate for a part of a document that is there is judged as the document is judged once the
part has been replaced: the status, the text and the failing members are the same. -/
theorem Validator.prevalidate_replacing (v : Validator) {doc candidate : Json} {m : Member}
    (hdoc : doc.WellFormed) (hc : candidate.WellFormed) (hm : m.path.Literal)
    (hat : (v.terms.registry.find? (.json doc) m.path).isSome = true) (hfixed : v.rule.isFixed = true)
    (hplain : v.rule.isPlain false = true) (hpolicy : v.terms.settings.existence ≠ .abort) :
    v.prevalidate (.json doc) m (.json candidate) =
      v.validateMember (.json (Json.put candidate m.path doc).1) m := by
  rw [← Registry.isSome_at?] at hat
  have hput : Json.put candidate m.path doc = ((Json.put candidate m.path doc).1, true) :=
    Prod.ext rfl (Json.put_of_at? hm hat)
  exact prevalidate_eq_validateMember (Json.stores_put hput hdoc hc) hfixed (fun he => absurd he hpolicy)
    (Rule.steady_of_isPlain hplain hput hdoc hat)

/-- One of two prices becomes negative, and so is the other rule on it violated. -/
theorem Validator.prevalidate_replacing_price :
    let r : Rule := .group .and
      [.bind { path := [.name "items", .expand (.each .all), .name "price"] }
        (.condition (.compare .gt) (.value (.int 0))),
       .group .not [.bind { path := [.name "items", .expand (.each .any)] }
        (.bind { path := [.name "price"] } (.condition (.compare .lt) (.value (.int 0))))]]
    let v : Validator := { rule := r }
    let doc : Json := .object [("items", .list [.object [("price", .int 3)], .object [("price", .int 5)]])]
    let m : Member := { path := [.name "items", .index 1, .name "price"] }
    (doc.WellFormed ∧ Json.WellFormed (.int (-1)) ∧ m.path.Literal ∧
      (v.terms.registry.find? (.json doc) m.path).isSome = true ∧ v.rule.isFixed = true ∧
      v.rule.isPlain false = true ∧ v.terms.settings.existence ≠ .abort) ∧
    v.prevalidate (.json doc) m (.json (.int (-1))) =
      v.validateMember (.json (Json.put (.int (-1)) m.path doc).1) m ∧
    (v.prevalidate (.json doc) m (.json (.int (-1)))).status = .fail := by
  intro r v doc m
  have hdoc : doc.WellFormed := by decide
  have hc : Json.WellFormed (.int (-1)) := by decide
  have hm : m.path.Literal := by simp [m, Path.Literal, Key.isLiteral]
  have hat : (v.terms.registry.find? (.json doc) m.path).isSome = true := by decide
  have hfixed : v.rule.isFixed = true := by decide
  have hplain : v.rule.isPlain false = true := by decide
  have hpolicy : v.terms.settings.existence ≠ .abort := by decide
  exact ⟨⟨hdoc, hc, hm, hat, hfixed, hplain, hpolicy⟩,
    v.prevalidate_replacing hdoc hc hm hat hfixed hplain hpolicy, by decide⟩

end Conform
