import Conform.Proofs.Standpoints

/-!
# When a comparison succeeds

A comparison that a pass over the whole object comes to succeeds if both sides are values and the operator
relates them. Under the policy by which a missing member fails, a guard asks whether the operand exists in
place of a comparison whose operand is not found; a path with expansions is never found but may exist, and
the question then succeeds (`Validator.comparison_succeeds_iff`).
-/

namespace Conform

namespace Check

/-- The place of the member, or of the property of it, that is compared. -/
def path (k : Check) : Path :=
  k.member.path ++ (k.property?.map Key.property).toList

/-- The value that a comparison compares with, read from `o` by full paths. -/
def other? (t : Terms) (o : Object) (k : Check) : Option Value :=
  match k.operand with
  | .value v => some v
  | .member m => t.registry.valueAt? o m.path
  | .sample s => t.registry.valueAt? s k.path

/-- Both sides are values of `o`, and the operator relates them. -/
def Holds (t : Terms) (o : Object) (k : Check) : Prop :=
  ∃ a b, t.registry.valueAt? o k.path = some a ∧ k.other? t o = some b ∧ k.operator.apply a b = some true

/-- The member, its property and the member that it is compared with are found in `o`. -/
def Resolves (t : Terms) (o : Object) (k : Check) : Prop :=
  (t.registry.find? o k.path).isSome = true ∧
    ∀ m, k.operand = .member m → (t.registry.find? o m.path).isSome = true

/-- The member is found and the one that it is compared with is not, but is said to exist. -/
def StandsIn (t : Terms) (o : Object) (k : Check) : Prop :=
  (t.registry.find? o k.path).isSome = true ∧
    ∃ m, k.operand = .member m ∧ (t.registry.find? o m.path).isSome = false ∧ m.splitProperty.2 = none ∧
      t.registry.reaches o m.path = true

variable {t : Terms} {o : Object} {k : Check}

theorem compareAt_eq_success_iff : t.compareAt o k.path k.operator k.operand = .success ↔ k.Holds t o := by
  have hof : ∀ b?, Status.ofOption b? = .success ↔ b? = some true := by
    rintro (_ | _ | _) <;> decide
  unfold Terms.compareAt
  extract_lets right?
  have hright : right? = k.other? t o := rfl
  rw [Holds, hright]
  cases t.registry.valueAt? o k.path with
  | none => simp
  | some a =>
    cases k.other? t o with
    | none => simp
    | some b => simp [hof]

theorem not_holds_of_not_resolves (h : ¬ k.Resolves t o) : ¬ k.Holds t o := by
  rintro ⟨a, b, ha, hb, -⟩
  have hsome : ∀ {p : Path} {w : Value}, t.registry.valueAt? o p = some w → (t.registry.find? o p).isSome = true := by
    intro p w hw
    obtain ⟨f, hf, -⟩ := Option.bind_eq_some_iff.1 hw
    rw [hf]
    rfl
  refine h ⟨hsome ha, fun m hm => ?_⟩
  rw [other?, hm] at hb
  exact hsome hb

theorem StandsIn.not_resolves (h : k.StandsIn t o) : ¬ k.Resolves t o := by
  obtain ⟨-, m, hm, hnone, -⟩ := h
  intro hresolves
  rw [hresolves.2 m hm] at hnone
  cases hnone

/-- Only a path with expansions stands for more than is found. -/
theorem StandsIn.not_concrete (h : k.StandsIn t o) : ∃ m, k.operand = .member m ∧ ¬ m.path.Concrete := by
  obtain ⟨-, m, hm, hnone, -, hreaches⟩ := h
  refine ⟨m, hm, fun hconcrete => ?_⟩
  rw [Registry.reaches_concrete _ _ hconcrete, Registry.isSome_at?, hnone] at hreaches
  cases hreaches

end Check

/-! ### Leaves of the validated object -/

theorem Cursor.has_of_sees {r : Registry} {o : Object} {cur : Cursor} {m : Member} {p : Path} (p? : Option Property)
    (hm : m.path.Concrete) (h : cur.sees? r m.path = r.at? o p) :
    cur.has r m p? = (r.find? o (p ++ (p?.map Key.property).toList)).isSome := by
  rw [← Registry.isSome_at?]
  cases p? with
  | none =>
    rw [has_none_concrete _ _ hm, h, Option.map_none, Option.toList_none, List.append_nil]
  | some q =>
    rw [has_some, h, Option.map_some, Option.toList_some, Registry.at?_append]
    cases r.at? o p with
    | none => rfl
    | some x => simp [Registry.at?_cons, Registry.next?]

namespace Cursor.Tracks
variable {r : Registry} {o : Object} {cur : Cursor} {k : Check} {m : Member} {p : Path}

theorem has_check (h : cur.Tracks r o k.member.path) :
    cur.has r k.member k.property? = (r.find? o k.path).isSome :=
  has_of_sees k.property? h.concrete h.sees

theorem operandBase_eq (h : cur.Tracks r o p) : cur.operandBase = ({ object := o }, 0) := by
  rw [operandBase, h.operands, h.root]
  rfl

theorem sees?_operand (h : cur.Tracks r o p) (q : Path) : cur.fromOperands.sees? r q = r.at? o q := by
  rw [fromOperands, h.operandBase_eq]
  rfl

theorem hasOperand (h : cur.Tracks r o p) (m : Member) : cur.hasOperand r m = (r.find? o m.path).isSome := by
  rw [hasOperand_eq, h.sees?_operand, Registry.isSome_at?]

theorem has_operand (h : cur.Tracks r o p) (m : Member) : cur.fromOperands.has r m none = r.reaches o m.path := by
  rw [Cursor.has_none, fromOperands, h.operandBase_eq]
  rfl

theorem lacks_check (c : Chain) {subject : Subject} (h : cur.Tracks c.registry o k.member.path) :
    c.lacks cur (.check subject k) = false ↔ k.Resolves c.terms o := by
  rw [Chain.lacks, h.has_check, Bool.or_eq_false_iff, Bool.not_eq_false', Check.Resolves]
  refine and_congr Iff.rfl ?_
  cases k.operand with
  | value | sample => simp
  | member other =>
    simp only [h.hasOperand, Bool.not_eq_false']
    exact ⟨fun hsome m hm => by cases hm; exact hsome, fun hsome => hsome other rfl⟩

end Cursor.Tracks

namespace Chain
variable {c : Chain} {o : Object} {cur : Cursor} {k : Check} {m : Member} {p : Path}

/-- The question for an operand that is not found succeeds where the operand has no property and its path
leads somewhere. -/
theorem answer_operandMustExist_of_tracks (h : cur.Tracks c.registry o p)
    (hnone : (c.registry.find? o m.path).isSome = false) :
    (c.operandMustExist cur m).1.answer c.registry (c.operandMustExist cur m).2 =
      .ofBool (m.splitProperty.2.isNone && c.registry.reaches o m.path) := by
  have hjoin := m.splitProperty_join
  have hexists := h.has_operand m.splitProperty.1
  rw [operandMustExist, mustExist, missingProperty?, Cursor.answer, hexists, beq_true]
  cases hp : m.splitProperty.2 with
  | none =>
    rw [hp, Option.map_none, Option.toList_none, List.append_nil] at hjoin
    rw [ite_self, hexists, hjoin]
    rfl
  | some q =>
    -- the owner is said to exist but is not found, or is found without the property
    have hlost : cur.fromOperands.has c.registry m.splitProperty.1 (some q) = false := by
      rw [hp, Option.map_some, Option.toList_some] at hjoin
      rw [← Registry.isSome_at?, ← hjoin, Registry.at?_append] at hnone
      rw [Cursor.has_some, h.sees?_operand]
      cases hat : c.registry.at? o m.splitProperty.1.path with
      | none => rfl
      | some x => simpa [hat, Registry.at?_cons, Registry.next?] using hnone
    split
    · rw [hlost]
      rfl
    next hmissing =>
      rw [Bool.not_eq_true] at hmissing
      rw [hexists, hmissing]
      rfl

end Chain

namespace Validator
variable {v : Validator} {o : Object} {cur : Cursor} {subject : Subject} {k : Check}

/-- A comparison for which a member is missing fails, unless the question for its operand succeeds. -/
theorem verdict_ask_unresolved (hpolicy : v.terms.settings.existence = .abort)
    (hcur : cur.Tracks v.terms.registry o k.member.path) (hk : ¬ k.Resolves v.terms o) :
    (Pass.verdict ((v.chain .everything).ask cur (.check subject k)) = .success ↔ k.StandsIn v.terms o) ∧
      (¬ k.StandsIn v.terms o → Pass.verdict ((v.chain .everything).ask cur (.check subject k)) = .fail) := by
  rw [ask_everything]
  cases hfound : (v.terms.registry.find? o k.path).isSome with
  | false =>
    have hhas : cur.has (v.chain .everything).registry k.member k.property? = false := hcur.has_check.trans hfound
    have hstands : ¬ k.StandsIn v.terms o := fun h => by
      rw [h.1] at hfound
      cases hfound
    rw [verdict_behind_of_not_has hpolicy hhas]
    exact ⟨iff_of_false (by decide) hstands, fun _ => rfl⟩
  | true =>
    have hhas : cur.has (v.chain .everything).registry k.member k.property? = true := hcur.has_check.trans hfound
    obtain ⟨m, hm, hnone⟩ : ∃ m, k.operand = .member m ∧ (v.terms.registry.find? o m.path).isSome = false := by
      by_contra hall
      refine hk ⟨hfound, fun m hm => ?_⟩
      rw [← Bool.not_eq_false]
      exact fun hnone => hall ⟨m, hm, hnone⟩
    have hoperand : cur.hasOperand (v.chain .everything).registry m = false := (hcur.hasOperand m).trans hnone
    have hstands : k.StandsIn v.terms o ↔ m.splitProperty.2 = none ∧ v.terms.registry.reaches o m.path = true := by
      refine ⟨?_, fun hrest => ⟨hfound, m, hm, hnone, hrest⟩⟩
      rintro ⟨-, m', hm', -, hrest⟩
      cases hm.symm.trans hm'
      exact hrest
    have hasked : Pass.verdict ((v.chain .everything).askThrough v.behind cur (.check subject k)) =
        .ofBool (m.splitProperty.2.isNone && v.terms.registry.reaches o m.path) :=
      (verdict_behind_of_guarded hpolicy (Chain.guarded_of_not_hasOperand hhas hm hoperand)).trans
        (Chain.answer_operandMustExist_of_tracks hcur hnone)
    rw [hasked, hstands, ← Option.isNone_iff_eq_none, ← Bool.and_eq_true]
    cases m.splitProperty.2.isNone && v.terms.registry.reaches o m.path <;> decide

/-- A comparison that a pass over the whole object comes to succeeds exactly if both sides are values and the
operator relates them, or if the policy is that a missing member fails and the member that it is compared with
is not found but is said to exist: then nothing is compared. Otherwise, under that policy, a comparison fails
for which a member is missing. Only what fans out exists without being found. -/
theorem comparison_succeeds_iff (ho : o.WellFormed)
    (h : (v.rule.plan .root).Reaches (v.chain .everything) (.start o) (.ask (.check subject k)) cur) :
    let s := (Plan.ask (.check subject k)).verdict (v.chain .everything) cur
    (s = .success ↔ k.Holds v.terms o ∨ v.terms.settings.existence = .abort ∧ k.StandsIn v.terms o) ∧
    (v.terms.settings.existence = .abort → ¬ k.Resolves v.terms o → ¬ k.StandsIn v.terms o → s = .fail) ∧
    (k.StandsIn v.terms o →
      ¬ k.Resolves v.terms o ∧ ¬ k.Holds v.terms o ∧ ∃ m, k.operand = .member m ∧ ¬ m.path.Concrete) := by
  intro s
  have hcur : cur.Tracks v.terms.registry o k.member.path := tracks_of_reaches rfl ho h rfl
  have hlacks : (v.chain .everything).lacks cur (.check subject k) = false ↔ k.Resolves v.terms o :=
    hcur.lacks_check (v.chain .everything)
  refine ⟨?_, fun hpolicy hk => (verdict_ask_unresolved hpolicy hcur hk).2, fun hstands =>
    ⟨hstands.not_resolves, Check.not_holds_of_not_resolves hstands.not_resolves, hstands.not_concrete⟩⟩
  by_cases hguarded : v.terms.settings.existence = .abort ∧ ¬ k.Resolves v.terms o
  · obtain ⟨hpolicy, hk⟩ := hguarded
    have hholds : ¬ k.Holds v.terms o := Check.not_holds_of_not_resolves hk
    simp only [hholds, hpolicy, false_or, true_and]
    exact (verdict_ask_unresolved hpolicy hcur hk).1
  · have hanswer : s = cur.compare v.terms.registry k := by
      show Pass.verdict ((v.chain .everything).ask cur (.check subject k)) = _
      rw [ask_everything]
      exact verdict_behind_of_not_lacks fun hpolicy => hlacks.2 (not_not.1 fun hk => hguarded ⟨hpolicy, hk⟩)
    have hstands : ¬ (v.terms.settings.existence = .abort ∧ k.StandsIn v.terms o) := fun h =>
      hguarded ⟨h.1, h.2.not_resolves⟩
    rw [hanswer, hcur.compare_eq, or_iff_left hstands]
    exact Check.compareAt_eq_success_iff

/-- No price is to be above the limit; the first item keeps to it and the second has no price. -/
theorem comparison_succeeds_iff_prices :
    let limit : Member := { path := [.name "limit"] }
    let price (position : Nat) : Check :=
      { member := { path := [.name "items", .index position, .name "price"] }, property? := none
        operator := .compare .le, operand := .member limit }
    let v : Validator :=
      { rule := .bind { path := [.name "items", .expand (.each .all), .name "price"] }
          (.condition (.compare .le) (.member limit))
        terms := { settings := { existence := .abort } } }
    let o : Object := .json (.object [("items", .list [.object [("price", .int 3)], .object []]), ("limit", .int 5)])
    let c := v.chain .everything
    let item (position : Nat) (fields : List (String × Json)) : Cursor :=
      (Cursor.start o).atElement { path := [.name "items"] } ([.index position], .json (.object fields))
    (o.WellFormed ∧
        (v.rule.plan .root).Reaches c (.start o) (.ask (.check .other (price 0))) (item 0 [("price", .int 3)]) ∧
        (v.rule.plan .root).Reaches c (.start o) (.ask (.check .other (price 1))) (item 1 []) ∧
        v.terms.settings.existence = .abort ∧ ¬ (price 1).Resolves v.terms o ∧ ¬ (price 1).StandsIn v.terms o) ∧
      (price 0).Holds v.terms o ∧
      (Plan.ask (.check .other (price 0))).verdict c (item 0 [("price", .int 3)]) = .success ∧
      (Plan.ask (.check .other (price 1))).verdict c (item 1 []) = .fail := by
  intro limit price v o c item
  have ho : o.WellFormed := by decide
  have hfirst : (v.rule.plan .root).Reaches c (.start o) (.ask (.check .other (price 0))) (item 0 [("price", .int 3)]) :=
    .forEach rfl rfl (mem_upTo_cons_self ..) (.refl ..)
  have hsecond : (v.rule.plan .root).Reaches c (.start o) (.ask (.check .other (price 1))) (item 1 []) :=
    .forEach rfl rfl (mem_upTo_cons rfl (mem_upTo_cons_self ..)) (.refl ..)
  have hresolves : ¬ (price 1).Resolves v.terms o := fun h => absurd h.1 (by decide)
  have hstands : ¬ (price 1).StandsIn v.terms o := fun h => absurd h.1 (by decide)
  have hholds : (price 0).Holds v.terms o := ⟨.int 3, .int 5, rfl, rfl, rfl⟩
  exact ⟨⟨ho, hfirst, hsecond, rfl, hresolves, hstands⟩, hholds, (comparison_succeeds_iff ho hfirst).1.2 (.inl hholds),
    (comparison_succeeds_iff ho hsecond).2.1 rfl hresolves hstands⟩

/-- The items are not a value, but there is one, and so `a` is never compared. -/
theorem comparison_succeeds_unresolved :
    let items : Member := { path := [.name "items", .expand (.each .all)] }
    let k : Check :=
      { member := { path := [.name "a"] }, property? := none, operator := .compare .gt, operand := .member items }
    let v : Validator :=
      { rule := .bind { path := [.name "a"] } (.condition (.compare .gt) (.member items))
        terms := { settings := { existence := .abort } } }
    let o : Object := .json (.object [("a", .int 1), ("items", .list [.int 1])])
    (v.rule.plan .root).Reaches (v.chain .everything) (.start o) (.ask (.check .other k)) (.start o) ∧
      (Plan.ask (.check .other k)).verdict (v.chain .everything) (.start o) = .success ∧
      v.terms.registry.valueAt? o items.path = none ∧ ¬ k.Resolves v.terms o ∧ (v.validate o).status = .success ∧
      ((v.under .safe).validate o).status = .ignore := by
  intro items k v o
  have hnone : v.terms.registry.valueAt? o items.path = none := rfl
  have hresolves : ¬ k.Resolves v.terms o := fun h => absurd (h.2 items rfl) (by decide)
  exact ⟨.refl .., by decide, hnone, hresolves, by decide, by decide⟩

end Validator

end Conform
