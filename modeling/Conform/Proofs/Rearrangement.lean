import Conform.Proofs.Duality
import Conform.Proofs.Negations
import Conform.Proofs.Rewriting

/-!
# Rules in another arrangement

The answer of a connective is the weightiest of those that it combines (`Connective.fold_heaviest`). So
their order does not matter, connectives of one kind can be merged (`Connective.fold_fold`), and it does
not matter whether elements or rules are gone through first (`Quantifier.fold_grid`). Before a negation
the same is looked for, in whichever order it is mentioned (`Mentions.hold_rules_iff_forall`). So rules
can be rearranged anywhere in a rule (`Validator.answers_rearranged`).
-/

namespace Conform

/-! ### Folds -/

/-- If one answer settles a round and another comes next, the round gives the weightiest of the answers. -/
theorem Status.weightiest {weight : Status → Nat} {stop other answer : Status} {ss : List Status}
    (hstop : weight other ≤ weight stop) (hother : weight .ignore ≤ weight other)
    (hall : ∀ s, s = stop ∨ s = other ∨ s = .ignore) (hne : ss ≠ [])
    (h : answer = if ss.any (· == stop) then stop else if ss.any (· == other) then other else .ignore) :
    answer ∈ ss ∧ ∀ s ∈ ss, weight s ≤ weight answer := by
  have hmem : ∀ {s : Status}, ss.any (· == s) = true ↔ s ∈ ss := by simp
  simp only [hmem] at h
  subst h
  split
  next hs =>
    refine ⟨hs, fun s _ => ?_⟩
    rcases hall s with rfl | rfl | rfl <;> omega
  next hs =>
    split
    next ho =>
      refine ⟨ho, fun s hmem => ?_⟩
      rcases hall s with rfl | rfl | rfl
      · exact absurd hmem hs
      · exact Nat.le_refl _
      · exact hother
    next ho =>
      have hignore : ∀ s ∈ ss, s = .ignore := fun s hmem => by
        rcases hall s with rfl | rfl | rfl
        · exact absurd hmem hs
        · exact absurd hmem ho
        · rfl
      obtain ⟨s, hmem⟩ := List.exists_mem_of_ne_nil ss hne
      exact ⟨hignore s hmem ▸ hmem, fun t ht => Nat.le_of_eq (congrArg weight (hignore t ht))⟩

namespace Connective
variable {k : Connective} {ss ts : List Status} {s : Status}

/-- What settles a connective weighs most, and what does not apply weighs nothing. -/
def weight (k : Connective) (s : Status) : Nat :=
  if k.decides s then 2 else if s.isIgnore then 0 else 1

theorem weight_injective (k : Connective) : Function.Injective k.weight := by
  intro s t h
  cases k <;> cases s <;> cases t <;> first | rfl | cases h

/-- A connective gives the weightiest of the answers. -/
theorem fold_heaviest (hk : k ≠ .not) (hne : ss ≠ []) :
    k.fold ss ∈ ss ∧ ∀ s ∈ ss, k.weight s ≤ k.weight (k.fold ss) := by
  cases k with
  | and =>
    exact Status.weightiest (by decide) (by decide) (fun s => by cases s <;> decide) hne (Status.allOf_eq hne)
  | or =>
    exact Status.weightiest (by decide) (by decide) (fun s => by cases s <;> decide) hne (Status.anyOf_eq hne)
  | not => exact absurd rfl hk

theorem fold_eq_of_heaviest (hk : k ≠ .not) (hs : s ∈ ss) (h : ∀ t ∈ ss, k.weight t ≤ k.weight s) : k.fold ss = s := by
  obtain ⟨hmem, hmax⟩ := fold_heaviest hk (List.ne_nil_of_mem hs)
  exact k.weight_injective (Nat.le_antisymm (h _ hmem) (hmax s hs))

theorem fold_singleton (hk : k ≠ .not) (s : Status) : k.fold [s] = s :=
  fold_eq_of_heaviest hk (List.mem_singleton_self s) fun _ ht => List.mem_singleton.1 ht ▸ Nat.le_refl _

theorem fold_const (hk : k ≠ .not) (hne : ss ≠ []) (h : ∀ t ∈ ss, t = s) : k.fold ss = s :=
  h _ (fold_heaviest hk hne).1

theorem fold_congr_mem (h : ∀ s, s ∈ ss ↔ s ∈ ts) (k : Connective) : k.fold ss = k.fold ts := by
  have hany : ∀ p : Status → Bool, ss.any p = ts.any p := fun p => by
    rw [Bool.eq_iff_iff, List.any_eq_true, List.any_eq_true]
    simp only [h]
  have hempty : ss.isEmpty = ts.isEmpty := by
    rw [Bool.eq_iff_iff, List.isEmpty_iff, List.isEmpty_iff, List.eq_nil_iff_forall_not_mem,
      List.eq_nil_iff_forall_not_mem]
    simp only [h]
  cases k <;> simp only [fold, Status.allOf, Status.anyOf, hany, hempty]

theorem fold_fold {α : Type} {xs : List α} {f : α → List Status} (hk : k ≠ .not) (hf : ∀ x ∈ xs, f x ≠ []) :
    k.fold (xs.map fun x => k.fold (f x)) = k.fold (xs.flatMap f) := by
  cases xs with
  | nil => rfl
  | cons y ys =>
    have hne : (y :: ys).map (fun x => k.fold (f x)) ≠ [] := List.map_eq_nil_iff.not.2 (List.cons_ne_nil y ys)
    obtain ⟨hmem, hmax⟩ := fold_heaviest hk hne
    obtain ⟨x, hx, heq⟩ := List.mem_map.1 hmem
    rw [← heq] at hmax ⊢
    refine (fold_eq_of_heaviest hk (List.mem_flatMap.2 ⟨x, hx, (fold_heaviest hk (hf x hx)).1⟩) fun t ht => ?_).symm
    obtain ⟨z, hz, ht⟩ := List.mem_flatMap.1 ht
    calc k.weight t ≤ k.weight (k.fold (f z)) := (fold_heaviest hk (hf z hz)).2 t ht
      _ ≤ k.weight (k.fold (f x)) := hmax _ (List.mem_map.2 ⟨z, hz, rfl⟩)

end Connective

namespace Quantifier

theorem fold_of_ne_nil (q : Quantifier) (allEmpty : Status) {ss : List Status} (h : ss ≠ []) :
    q.fold allEmpty ss = q.connective.fold ss := by
  cases q <;> cases ss <;> first | rfl | exact absurd rfl h

/-- It does not matter whether the elements or the rules are gone through first. -/
theorem fold_grid {α β : Type} (q : Quantifier) (allEmpty : Status) (xs : List α) {ys : List β} (hys : ys ≠ [])
    (f : α → β → Status) :
    q.fold allEmpty (xs.map fun x => q.connective.fold (ys.map (f x))) =
      q.connective.fold (ys.map fun y => q.fold allEmpty (xs.map (f · y))) := by
  have hq := q.connective_ne_not
  by_cases hxs : xs = []
  · subst hxs
    refine (Connective.fold_const hq (List.map_eq_nil_iff.not.2 hys) fun t ht => ?_).symm
    obtain ⟨y, -, rfl⟩ := List.mem_map.1 ht
    rfl
  · have hrow : ∀ y, q.fold allEmpty (xs.map (f · y)) = q.connective.fold (xs.map (f · y)) := fun y =>
      q.fold_of_ne_nil allEmpty (List.map_eq_nil_iff.not.2 hxs)
    rw [fold_of_ne_nil q allEmpty (List.map_eq_nil_iff.not.2 hxs), List.map_congr_left fun y _ => hrow y,
      Connective.fold_fold hq fun _ _ => List.map_eq_nil_iff.not.2 hys,
      Connective.fold_fold hq fun _ _ => List.map_eq_nil_iff.not.2 hxs]
    refine Connective.fold_congr_mem (fun s => ?_) _
    simp only [List.mem_flatMap, List.mem_map]
    constructor
    · rintro ⟨x, hx, y, hy, rfl⟩
      exact ⟨y, hy, x, hx, rfl⟩
    · rintro ⟨y, hy, x, hx, rfl⟩
      exact ⟨x, hx, y, hy, rfl⟩

end Quantifier

/-! ### What is mentioned -/

namespace Mentions
variable {P Q : Path → Prop} {f g : Mentions → Mentions} {scope : Member}

/-- What is noted comes on top of what there is. -/
def Adds (P Q : Path → Prop) (f : Mentions → Mentions) : Prop :=
  ∀ ms, (f ms).Hold P Q ↔ ms.Hold P Q ∧ (f empty).Hold P Q

theorem hold_empty (P Q : Path → Prop) : empty.Hold P Q :=
  ⟨fun _ hm => absurd hm List.not_mem_nil, fun _ hm => absurd hm List.not_mem_nil⟩

theorem adds_id (P Q : Path → Prop) : Adds P Q id := fun _ =>
  (and_iff_left (hold_empty P Q)).symm

theorem Adds.comp (hf : Adds P Q f) (hg : Adds P Q g) : Adds P Q fun ms => g (f ms) := fun ms => by
  rw [hg (f ms), hg (f empty), hf ms, and_assoc]

theorem adds_member (hP : Respects P) {m : Member} (hm : m.path.Concrete) : Adds P Q (·.member m) := fun ms => by
  rw [hold_member_iff_of_ne hP hm, hold_member_iff_of_ne hP hm, and_iff_right (hold_empty P Q)]

theorem adds_operand (hQ : Respects Q) (o : Operand) : Adds P Q (·.operand o) := by
  cases o with
  | value | sample => exact adds_id P Q
  | member m =>
    intro ms
    have hcut := Path.concrete_take_firstExpansion m.path
    set cut := m.path.take ((Path.firstExpansion? m.path).getD m.path.length)
    have hnote : ∀ noted, (∀ x ∈ note { path := cut } noted, Q x.path) ↔ (cut ≠ [] → Q cut) ∧ ∀ x ∈ noted, Q x.path :=
      fun _ => forall_note_iff_of_ne hQ hcut
    constructor
    · intro h
      have hoperands := (hnote ms.operands).1 h.operands
      exact ⟨⟨h.members, hoperands.2⟩, (hold_empty P Q).members, (hnote []).2 ⟨hoperands.1, (hold_empty P Q).operands⟩⟩
    · intro h
      exact ⟨h.1.members, (hnote ms.operands).2 ⟨((hnote []).1 h.2.operands).1, h.1.operands⟩⟩

mutual

theorem adds_rule (hP : Respects P) (hQ : Respects Q) : ∀ (r : Rule) {scope : Member}, scope.path.Concrete →
    Adds P Q fun ms => rule scope ms r
  | .condition _ o, _, hs => (adds_member hP hs).comp (adds_operand hQ o)
  | .property p _ o, scope, hs =>
    have hp : (scope.extend [.property p]).path.Concrete := hs.append (List.forall_mem_singleton.2 rfl)
    (adds_member hP hp).comp (adds_operand hQ o)
  | .presence _, _, _ => adds_id P Q
  | .bind m body, scope, hs => by
    intro ms
    have hcut := Path.concrete_take_firstExpansion m.path
    simp only [rule]
    cases hfirst : Path.firstExpansion? m.path with
    | some cut =>
      rw [hfirst] at hcut
      exact adds_member hP (hs.append hcut) ms
    | none =>
      rw [hfirst, Option.getD_none, List.take_length] at hcut
      exact adds_rule hP hQ body (hs.append hcut) ms
  | .group _ rs, _, hs => adds_rules hP hQ rs hs
  | .elements .., _, hs => adds_member hP hs
  | .explain _ body, _, hs => adds_rule hP hQ body hs

theorem adds_rules (hP : Respects P) (hQ : Respects Q) : ∀ (rs : List Rule) {scope : Member}, scope.path.Concrete →
    Adds P Q fun ms => rules scope ms rs
  | [], _, _ => adds_id P Q
  | r :: rs, _, hs => (adds_rule hP hQ r hs).comp (adds_rules hP hQ rs hs)

end

/-- What rules mention is what each of them mentions, in whatever order they stand. -/
theorem hold_rules_iff_forall (hP : Respects P) (hQ : Respects Q) (hs : scope.path.Concrete) (rs : List Rule) :
    (ofRules scope rs).Hold P Q ↔ ∀ r ∈ rs, (rule scope empty r).Hold P Q := by
  induction rs with
  | nil => exact iff_of_true (hold_empty P Q) fun _ hr => absurd hr List.not_mem_nil
  | cons r rs ih =>
    have hadds : (ofRules scope (r :: rs)).Hold P Q ↔ (rule scope empty r).Hold P Q ∧ (ofRules scope rs).Hold P Q :=
      adds_rules hP hQ rs hs _
    rw [hadds, ih, List.forall_mem_cons]

/-- In whatever order, the same places are mentioned. -/
def Agree (ms ms' : Mentions) : Prop :=
  ∀ P Q, Respects P → Respects Q → (ms.Hold P Q ↔ ms'.Hold P Q)

theorem agree_refl (ms : Mentions) : Agree ms ms := fun _ _ _ _ => Iff.rfl

end Mentions

/-! ### Plans -/

namespace Chain

/-- A branch is entered where it stands; before a negation the chain may look for what its rules read. -/
structure IsUnfiltered (c : Chain) : Prop where
  handlerFree : c.HandlerFree
  passes : ∀ m s, c.passes m s = s.isSuccess
  enters : ∃ abort : Bool, ∀ cur b, c.enters? cur b = if abort && c.lacksBefore cur b then none else some cur

variable {c : Chain} {cur : Cursor} {scope : Member} {rules rules' : List Rule}

theorem lacksBefore_of_ne_not {b : Branch} (hb : ∀ scope rules, b ≠ .group .not scope rules) (cur : Cursor) :
    c.lacksBefore cur b = false := by
  cases b with
  | elements | explained => rfl
  | group k scope rules =>
    cases k with
    | and | or => rfl
    | not => exact absurd rfl (hb scope rules)

theorem IsUnfiltered.enters?_of_ne_not (h : c.IsUnfiltered) {b : Branch} (hb : ∀ scope rules, b ≠ .group .not scope rules)
    (cur : Cursor) : c.enters? cur b = some cur := by
  obtain ⟨abort, henters⟩ := h.enters
  rw [henters, lacksBefore_of_ne_not hb, Bool.and_false]
  rfl

theorem lacksBefore_congr (h : (Mentions.ofRules scope rules).Agree (.ofRules scope rules')) (cur : Cursor)
    (k : Connective) : c.lacksBefore cur (.group k scope rules) = c.lacksBefore cur (.group k scope rules') := by
  cases k with
  | and | or => rfl
  | not =>
    have hiff := h _ _ (Mentions.respects_hasAt cur c.registry) (Mentions.respects_sees? cur.fromOperands c.registry)
    rw [← lacksBefore_iff, ← lacksBefore_iff] at hiff
    rw [Bool.eq_iff_iff, ← not_iff_not, Bool.not_eq_true, Bool.not_eq_true]
    exact hiff

theorem IsUnfiltered.enters?_group (h : c.IsUnfiltered) (hagree : (Mentions.ofRules scope rules).Agree (.ofRules scope rules'))
    (cur : Cursor) (k : Connective) : c.enters? cur (.group k scope rules) = c.enters? cur (.group k scope rules') := by
  obtain ⟨abort, henters⟩ := h.enters
  rw [henters, henters, lacksBefore_congr hagree]

end Chain

theorem Validator.isUnfiltered_chain (v : Validator) : (v.chain .everything).IsUnfiltered := by
  by_cases hpolicy : v.terms.settings.existence = .abort
  · have hguards := guards_of_abort hpolicy
    refine ⟨inferInstance, fun m s => (hguards.passes_eq m s).1, true, fun cur b => ?_⟩
    rw [(hguards.enters?_eq cur b).1, Bool.true_and]
  · refine ⟨inferInstance, fun m s => ?_, false, fun cur b => ?_⟩
    · rw [v.passes_chain]; rfl
    · rw [Chain.enters?, layers_chain]
      cases h : v.terms.settings.existence with
      | abort => exact absurd h hpolicy
      | optimistic | safe => rfl

namespace Plan
variable {c : Chain} {body body' : Member → Plan} {container : Member}

theorem verdict_forEach_congr [c.HandlerFree] (hpasses : ∀ m s, c.passes m s = s.isSuccess) (e : Expansion)
    (h : ∀ scope, scope.path.Concrete → ∀ cur, (body scope).verdict c cur = (body' scope).verdict c cur)
    (hcontainer : container.path.Concrete) (cur : Cursor) :
    (forEach container e body).verdict c cur = (forEach container e body').verdict c cur := by
  have helements : ∀ cur, elementsVerdict c container e body cur = elementsVerdict c container e body' cur := by
    intro cur
    cases hfound : cur.found? c.terms container.path e with
    | none => rw [elementsVerdict, elementsVerdict, hfound]
    | some found =>
      rw [elementsVerdict_some hpasses hfound, elementsVerdict_some hpasses hfound]
      refine congrArg _ (List.map_congr_left fun x hx => h _ ?_ _)
      exact hcontainer.append (Cursor.literal_of_mem_found? (by rw [hfound]; exact hx)).concrete
  rw [verdict_forEach, verdict_forEach, funext helements]

theorem verdict_along_congr [c.HandlerFree] (hpasses : ∀ m s, c.passes m s = s.isSuccess) (path : Path)
    (h : ∀ scope, scope.path.Concrete → ∀ cur, (body scope).verdict c cur = (body' scope).verdict c cur) :
    ∀ scope, scope.path.Concrete → ∀ cur, (along body path scope).verdict c cur = (along body' path scope).verdict c cur := by
  induction path with
  | nil => exact h
  | cons k path ih =>
    intro scope hs cur
    cases k with
    | expand e => exact verdict_forEach_congr hpasses e ih hs cur
    | name | index | property => exact ih _ (hs.append (List.forall_mem_singleton.2 rfl)) cur

end Plan

/-! ### Rules -/

namespace Rule
variable {c : Chain} {k : Connective} {rs rs' : List Rule} {r r' : Rule} {scope : Member}

/-- The rules answer alike and mention the same, at every place. -/
structure Interchangeable (c : Chain) (r r' : Rule) : Prop where
  verdict : ∀ scope, scope.path.Concrete → ∀ cur, (r.plan scope).verdict c cur = (r'.plan scope).verdict c cur
  mentions : ∀ scope, scope.path.Concrete → (Mentions.rule scope .empty r).Agree (Mentions.rule scope .empty r')

theorem verdict_group_entered [c.HandlerFree] (k : Connective) (rs : List Rule) (scope : Member) (cur : Cursor) :
    ((group k rs).plan scope).verdict c cur =
      ((c.enters? cur (.group k scope rs)).map fun cur => k.fold (rs.map fun r => (r.plan scope).verdict c cur)).getD
        .fail := by
  have hbody : ∀ cur, (Plan.connect k (plans rs scope)).verdict c cur =
      k.fold (rs.map fun r => (r.plan scope).verdict c cur) := fun cur => by
    rw [Plan.verdict_connect, plans_eq_map, List.map_map]
    rfl
  rw [plan, Plan.verdict_within, funext hbody]

theorem verdict_group_unfiltered (h : c.IsUnfiltered) (hk : k ≠ .not) (rs : List Rule) (scope : Member) (cur : Cursor) :
    ((group k rs).plan scope).verdict c cur = k.fold (rs.map fun r => (r.plan scope).verdict c cur) := by
  have hbranch : ∀ scope' rules, Branch.group k scope rs ≠ .group .not scope' rules := fun _ _ heq => by
    cases heq
    exact hk rfl
  have := h.handlerFree
  rw [verdict_group_entered, h.enters?_of_ne_not hbranch]
  rfl

theorem interchangeable_group (h : c.IsUnfiltered)
    (hfold : ∀ scope, scope.path.Concrete → ∀ cur,
      k.fold (rs.map fun r => (r.plan scope).verdict c cur) = k.fold (rs'.map fun r => (r.plan scope).verdict c cur))
    (hmentions : ∀ scope, scope.path.Concrete → (Mentions.ofRules scope rs).Agree (.ofRules scope rs')) :
    Interchangeable c (.group k rs) (.group k rs') where
  verdict scope hs cur := by
    have := h.handlerFree
    rw [verdict_group_entered, verdict_group_entered, h.enters?_group (hmentions scope hs), funext (hfold scope hs)]
  mentions := hmentions

theorem agree_of_forall₂ (h : List.Forall₂ (Interchangeable c) rs rs') (hs : scope.path.Concrete) :
    (Mentions.ofRules scope rs).Agree (.ofRules scope rs') := by
  intro P Q hP hQ
  rw [Mentions.hold_rules_iff_forall hP hQ hs, Mentions.hold_rules_iff_forall hP hQ hs]
  induction h with
  | nil => exact Iff.rfl
  | cons hr _ ih => rw [List.forall_mem_cons, List.forall_mem_cons, hr.mentions scope hs P Q hP hQ, ih]

theorem verdicts_of_forall₂ (h : List.Forall₂ (Interchangeable c) rs rs') (hs : scope.path.Concrete) (cur : Cursor) :
    (rs.map fun r => (r.plan scope).verdict c cur) = rs'.map fun r => (r.plan scope).verdict c cur := by
  induction h with
  | nil => rfl
  | cons hr _ ih => rw [List.map_cons, List.map_cons, hr.verdict scope hs, ih]

theorem congruent_interchangeable (h : c.IsUnfiltered) : Congruent (Interchangeable c) where
  equivalence :=
    { refl := fun r => ⟨fun _ _ _ => rfl, fun _ _ => Mentions.agree_refl _⟩
      symm := fun hr => ⟨fun scope hs cur => (hr.verdict scope hs cur).symm,
        fun scope hs P Q hP hQ => (hr.mentions scope hs P Q hP hQ).symm⟩
      trans := fun hr hr' => ⟨fun scope hs cur => (hr.verdict scope hs cur).trans (hr'.verdict scope hs cur),
        fun scope hs P Q hP hQ => (hr.mentions scope hs P Q hP hQ).trans (hr'.mentions scope hs P Q hP hQ)⟩ }
  bind m r r' hr := by
    have := h.handlerFree
    refine ⟨fun scope hs => Plan.verdict_along_congr h.passes m.path hr.verdict (scope.adoptNames m) hs, fun scope hs => ?_⟩
    have hcut := Path.concrete_take_firstExpansion m.path
    rw [Mentions.rule, Mentions.rule]
    cases hfirst : Path.firstExpansion? m.path with
    | some cut => exact Mentions.agree_refl _
    | none =>
      rw [hfirst, Option.getD_none, List.take_length] at hcut
      exact hr.mentions _ (hs.append hcut)
  group k rs rs' hrs :=
    interchangeable_group h (fun scope hs cur => congrArg k.fold (verdicts_of_forall₂ hrs hs cur))
      fun scope hs => agree_of_forall₂ hrs hs
  elements e rs rs' hrs := by
    have := h.handlerFree
    refine ⟨fun scope hs => Plan.verdict_forEach_congr h.passes e (fun scope hs cur => ?_) hs,
      fun scope _ => Mentions.agree_refl _⟩
    rw [Plan.verdict_connect, Plan.verdict_connect, plans_eq_map, plans_eq_map, List.map_map, List.map_map]
    exact congrArg Connective.and.fold (verdicts_of_forall₂ hrs hs cur)
  explain message r r' hr := by
    have := h.handlerFree
    refine ⟨fun scope hs cur => ?_, hr.mentions⟩
    rw [plan, plan, Plan.verdict_within, Plan.verdict_within, funext (hr.verdict scope hs)]

/-! ### Rearranging -/

theorem combine_cases (k : Connective) (a b : Rule) :
    combine k a b = group k [a, b] ∨ ∃ rs, a = group k rs ∧ combine k a b = group k (rs ++ [b]) := by
  cases a with
  | group k' rs =>
    by_cases hk : k' = k
    · exact .inr ⟨rs, hk ▸ rfl, if_pos hk⟩
    · exact .inl (if_neg hk)
  | condition | property | presence | bind | elements | explain => exact .inl rfl

/-- A step from one arrangement to another. -/
inductive Rearranges : Rule → Rule → Prop
  | permute (k : Connective) {rs rs' : List Rule} (h : rs.Perm rs') : Rearranges (.group k rs) (.group k rs')
  | flatten {k : Connective} (hk : k ≠ .not) {a : Rule} (b : Rule) (ha : a ≠ .group k []) :
    Rearranges (combine k a b) (.group k [a, b])
  | distribute (e : Expansion) {m : Member} (hm : m.path.Concrete) {rs : List Rule} (hne : rs ≠ []) :
    Rearranges (.bind m (.elements e [.group e.quantifier.connective rs]))
      (.group e.quantifier.connective (rs.map fun r => .bind m (.elements e [r])))

theorem interchangeable_permuted (h : c.IsUnfiltered) (k : Connective) (hperm : rs.Perm rs') :
    Interchangeable c (.group k rs) (.group k rs') := by
  refine interchangeable_group h (fun scope _ cur => ?_) fun scope hs P Q hP hQ => ?_
  · exact Connective.fold_congr_mem (fun s => (hperm.map _).mem_iff) k
  · rw [Mentions.hold_rules_iff_forall hP hQ hs, Mentions.hold_rules_iff_forall hP hQ hs]
    exact forall_congr' fun r => by rw [hperm.mem_iff]

theorem interchangeable_flattened (h : c.IsUnfiltered) (hk : k ≠ .not) {a : Rule} (b : Rule) (ha : a ≠ .group k []) :
    Interchangeable c (combine k a b) (.group k [a, b]) := by
  rcases combine_cases k a b with heq | ⟨rs, rfl, heq⟩
  · rw [heq]
    exact (congruent_interchangeable h).equivalence.refl _
  · rw [heq]
    refine interchangeable_group h (fun scope _ cur => ?_) fun scope hs P Q hP hQ => ?_
    · have hne : ∀ part ∈ [rs, [b]], (part.map fun r => (r.plan scope).verdict c cur) ≠ [] := by
        have hrs : rs ≠ [] := fun hnil => ha (by rw [hnil])
        simp [hrs]
      have hfold := Connective.fold_fold hk hne
      simp only [List.map_cons, List.map_nil, Connective.fold_singleton hk, List.flatMap_cons, List.flatMap_nil,
        List.append_nil] at hfold
      simp only [List.map_append, List.map_cons, List.map_nil, verdict_group_unfiltered h hk, hfold]
    · have hgroup : (Mentions.rule scope .empty (group k rs)).Hold P Q ↔ _ := Mentions.hold_rules_iff_forall hP hQ hs rs
      simp only [Mentions.hold_rules_iff_forall hP hQ hs, List.forall_mem_append, List.forall_mem_cons, hgroup]

theorem plan_bind_concrete {m : Member} (hm : m.path.Concrete) (r : Rule) (scope : Member) :
    (bind m r).plan scope = r.plan ((scope.adoptNames m).extend m.path) := by
  rw [plan, Plan.along_concrete hm]

theorem verdict_elements (h : c.IsUnfiltered) (e : Expansion) (r : Rule) (container : Member) (cur : Cursor) :
    ((elements e [r]).plan container).verdict c cur =
      ((cur.found? c.terms container.path e).map fun found => e.quantifier.fold c.settings.allEmpty
        (found.map fun x => (r.plan (container.element x.1 e.display?)).verdict c (cur.atElement container x))).getD
          .ignore := by
  have hsingle : ∀ scope cur, (Plan.connect .and (plans [r] scope)).verdict c cur = (r.plan scope).verdict c cur := by
    intro scope cur
    rw [Plan.verdict_connect, plans, plans, List.map_singleton, Connective.fold_singleton (by decide)]
  have := h.handlerFree
  have henters : c.enters? cur (.elements e.quantifier container) = some cur := h.enters?_of_ne_not (fun _ _ heq => by cases heq) cur
  rw [plan, Plan.verdict_forEach, henters, Option.map_some, Option.getD_some]
  cases hfound : cur.found? c.terms container.path e with
  | none =>
    rw [Plan.elementsVerdict, hfound]
    rfl
  | some found =>
    rw [Plan.elementsVerdict_some h.passes hfound, Option.map_some, Option.getD_some]
    simp only [hsingle]

theorem interchangeable_distributed (h : c.IsUnfiltered) (e : Expansion) {m : Member} (hm : m.path.Concrete)
    (hne : rs ≠ []) :
    Interchangeable c (.bind m (.elements e [.group e.quantifier.connective rs]))
      (.group e.quantifier.connective (rs.map fun r => .bind m (.elements e [r]))) := by
  have hk := e.quantifier.connective_ne_not
  refine ⟨fun scope _ cur => ?_, fun scope hs P Q hP hQ => ?_⟩
  · rw [verdict_group_unfiltered h hk, List.map_map, plan_bind_concrete hm, verdict_elements h]
    have hparts : ((fun r => (plan r scope).verdict c cur) ∘ fun r => bind m (elements e [r])) = fun r =>
        ((elements e [r]).plan ((scope.adoptNames m).extend m.path)).verdict c cur := funext fun r =>
      congrArg (·.verdict c cur) (plan_bind_concrete hm _ scope)
    simp only [hparts, verdict_elements h]
    generalize (scope.adoptNames m).extend m.path = container
    cases cur.found? c.terms container.path e with
    | none =>
      refine (Connective.fold_const hk (List.map_eq_nil_iff.not.2 hne) fun t ht => ?_).symm
      obtain ⟨r, -, rfl⟩ := List.mem_map.1 ht
      rfl
    | some found =>
      simp only [Option.map_some, Option.getD_some, verdict_group_unfiltered h hk]
      exact e.quantifier.fold_grid c.settings.allEmpty found hne _
  · have hmention : ∀ r, Mentions.rule scope .empty (.bind m (.elements e [r])) =
        Mentions.empty.member (scope.extend m.path) := fun r => by
      rw [Mentions.rule, Path.firstExpansion?_concrete hm, Mentions.rule]
    have hgroup : (Mentions.rule scope .empty (group e.quantifier.connective (rs.map fun r =>
        bind m (elements e [r])))).Hold P Q ↔ _ := Mentions.hold_rules_iff_forall hP hQ hs _
    obtain ⟨r, hr⟩ := List.exists_mem_of_ne_nil rs hne
    rw [hgroup, List.forall_mem_map, hmention]
    simp only [hmention]
    exact ⟨fun hall _ _ => hall, fun hall => hall r hr⟩

theorem interchangeable_of_rearranges (h : c.IsUnfiltered) (hr : Rearranges r r') : Interchangeable c r r' := by
  cases hr with
  | permute k hperm => exact interchangeable_permuted h k hperm
  | flatten hk b ha => exact interchangeable_flattened h hk b ha
  | distribute e hm hne => exact interchangeable_distributed h e hm hne

end Rule

namespace Validator
variable (v : Validator) (o : Object)

/-- The status of an object under a rule, with the terms of the validator. -/
def answer (r : Rule) : Status :=
  ({ v with rule := r } : Validator).status o

theorem answer_eq_verdict (r : Rule) : v.answer o r = (r.plan .root).verdict (v.chain .everything) (.start o) :=
  status_run { v with rule := r } o .everything

theorem answer_rewritten {r r' : Rule} (h : r.Rewrites Rule.Rearranges r') : v.answer o r = v.answer o r' := by
  have hc := v.isUnfiltered_chain
  have hinter := (Rule.congruent_interchangeable hc).of_rewrites (fun _ _ => Rule.interchangeable_of_rearranges hc) h
  rw [answer_eq_verdict, answer_eq_verdict]
  exact hinter.verdict .root (fun _ hk => absurd hk List.not_mem_nil) _

theorem answer_group {k : Connective} (hk : k ≠ .not) (rs : List Rule) :
    v.answer o (.group k rs) = k.fold (rs.map (v.answer o)) := by
  rw [answer_eq_verdict, Rule.verdict_group_unfiltered v.isUnfiltered_chain hk]
  exact congrArg k.fold (List.map_congr_left fun r _ => (v.answer_eq_verdict o r).symm)

theorem answer_combine {k : Connective} (hk : k ≠ .not) {a : Rule} (b : Rule) (ha : a ≠ .group k []) :
    v.answer o (.combine k a b) = k.fold [v.answer o a, v.answer o b] := by
  rw [v.answer_rewritten o (.rel _ _ (.here (.flatten hk b ha))), answer_group v o hk]
  rfl

/-- A demand on all elements goes through a conjunction and one on any element through a disjunction, a
rule that is added to another is combined with it whether or not the other one just grows, and the rules
of connectives may be permuted; all of that anywhere in a rule, under every policy, and whatever is said of
empty containers. -/
theorem answers_rearranged :
    (∀ (m : Member) (rs : List Rule), m.path.Concrete → rs ≠ [] →
      v.answer o (.bind m (Rule.all (.group .and rs))) = v.answer o (.group .and (rs.map fun r => .bind m r.all)) ∧
      v.answer o (.bind m (Rule.any (.group .or rs))) = v.answer o (.group .or (rs.map fun r => .bind m r.any))) ∧
    (∀ a b : Rule, a ≠ .group .and [] → v.answer o (a.and b) = .allOf [v.answer o a, v.answer o b]) ∧
    (∀ a b : Rule, a ≠ .group .or [] → v.answer o (a.or b) = .anyOf [v.answer o a, v.answer o b]) ∧
    ∀ r r' : Rule, r.Rewrites Rule.Rearranges r' → v.answer o r = v.answer o r' := by
  refine ⟨fun m rs hm hne => ⟨?_, ?_⟩, fun a b ha => ?_, fun a b ha => ?_, fun r r' h => ?_⟩
  · exact v.answer_rewritten o (.rel _ _ (.here (.distribute (.each .all) hm hne)))
  · exact v.answer_rewritten o (.rel _ _ (.here (.distribute (.each .any) hm hne)))
  · exact v.answer_combine o (by decide) b ha
  · exact v.answer_combine o (by decide) b ha
  · exact v.answer_rewritten o h

/-- The second item has no id, and nothing has a stock, which is a failure before a negation. -/
theorem answers_rearranged_items :
    let price : Rule := .bind { path := [.name "price"] } (.condition (.compare .gt) (.value (.int 0)))
    let id : Rule := .bind { path := [.name "id"] } (.presence true)
    let stock : Rule := .bind { path := [.name "stock"] } (.condition (.compare .gt) (.value (.int 0)))
    let items : Member := { path := [.name "items"] }
    let v : Validator := { rule := price, terms := { settings := { existence := .abort } } }
    let o : Object := .json (.object [("price", .int 3), ("items", .list [.object [("price", .int 3), ("id", .int 1)],
      .object [("price", .int 5)]])])
    (items.path.Concrete ∧ [price, id] ≠ [] ∧ Rule.group .and [price] ≠ .group .and [] ∧ [stock, price].Perm [price, stock]) ∧
      v.answer o (.bind items (Rule.all (.group .and [price, id]))) = .fail ∧
      v.answer o (.group .and [.bind items price.all, .bind items id.all]) = .fail ∧
      v.answer o ((Rule.group .and [price]).and id) = .allOf [v.answer o (.group .and [price]), v.answer o id] ∧
      v.answer o (Rule.group .or [stock, price]).not = .fail ∧
      v.answer o (Rule.group .or [price, stock]).not = .fail := by
  intro price id stock items v o
  have hitems : items.path.Concrete := by decide
  have hne : [price, id] ≠ [] := List.cons_ne_nil _ _
  have hprice : Rule.group .and [price] ≠ .group .and [] := nofun
  have hperm : [stock, price].Perm [price, stock] := .swap ..
  have hall : v.answer o (.bind items (Rule.all (.group .and [price, id]))) = .fail := by decide
  have hnot : v.answer o (Rule.group .or [stock, price]).not = .fail := by decide
  have hrewrites : (Rule.group .or [stock, price]).not.Rewrites Rule.Rearranges (Rule.group .or [price, stock]).not :=
    .rel _ _ (.group .not [] [] (.here (.permute .or hperm)))
  obtain ⟨hdistribute, hand, -, hrewritten⟩ := v.answers_rearranged o
  exact ⟨⟨hitems, hne, hprice, hperm⟩, hall, (hdistribute items _ hitems hne).1.symm.trans hall, hand _ id hprice, hnot,
    (hrewritten _ _ hrewrites).symm.trans hnot⟩

end Validator

end Conform
