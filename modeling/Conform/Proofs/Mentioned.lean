import Conform.Proofs.Sight
import Conform.Proofs.Throughout
import Conform.Rule.Mentions

/-!
# What mentions stand for

Mentions list what rules read, each place once, where properties are told apart by name only. The
places that are told apart no further are seen alike (`Cursor.hasAt_same`), so that nothing is lost:
what holds of all that rules without expansions mention holds of all that their leaves read, and the
other way round (`Mentions.hold_rule_iff`).
-/

namespace Conform

/-! ### Paths that are not told apart -/

namespace Registry
variable {r : Registry} {o : Object}

theorem read?_congr {p q : Property} (h : p.name = q.name) : r.read? o p = r.read? o q := by
  rw [read?, read?, getter?, getter?, h]

theorem next?_same {k l : Key} (h : (k == l) = true) : r.next? o k = r.next? o l := by
  cases k <;> cases l <;> simp_all [BEq.beq, Key.same, next?]
  rw [read?_congr h]

end Registry

namespace Path
variable {p q : Path}

theorem same_iff : same p q = true ↔ List.Forall₂ (fun k l => (k == l) = true) p q := by
  induction p generalizing q with
  | nil => cases q <;> simp [same]
  | cons k p ih => cases q <;> simp [same, ih]

theorem concrete_same (h : same p q = true) : p.Concrete ↔ q.Concrete := by
  rw [same_iff] at h
  induction h with
  | nil => rfl
  | @cons k l p q hkl _ ih =>
    have hl : k.isExpansion = l.isExpansion := by
      cases k <;> cases l <;> simp_all [BEq.beq, Key.same, Key.isExpansion]
    simp only [Concrete, List.forall_mem_cons, hl] at ih ⊢
    rw [ih]

theorem splitProperty_cons_cons (k l : Key) (p : Path) :
    splitProperty (k :: l :: p) = (k :: (splitProperty (l :: p)).1, (splitProperty (l :: p)).2) := by
  cases k <;> rfl

theorem splitProperty_same (h : same p q = true) : same (splitProperty p).1 (splitProperty q).1 = true ∧
    (splitProperty p).2.map Property.name = (splitProperty q).2.map Property.name := by
  rw [same_iff] at h ⊢
  induction h with
  | nil => exact ⟨.nil, rfl⟩
  | @cons k l p q hkl hpq ih =>
    cases hpq with
    | nil => cases k <;> cases l <;> simp_all [BEq.beq, Key.same, splitProperty]
    | cons _ _ =>
      rw [splitProperty_cons_cons, splitProperty_cons_cons]
      exact ⟨.cons hkl ih.1, ih.2⟩

end Path

theorem Registry.at?_same {r : Registry} {o : Object} {p q : Path} (h : Path.same p q = true) :
    r.at? o p = r.at? o q := by
  rw [Path.same_iff] at h
  induction h generalizing o with
  | nil => rfl
  | cons hkl _ ih =>
    rw [at?_cons, at?_cons, next?_same hkl]
    exact Option.bind_congr fun x _ => ih

namespace Cursor
variable {c : Cursor} {r : Registry} {p q : Path} {m : Member}

theorem sees?_same (h : Path.same p q = true) : c.sees? r p = c.sees? r q := by
  have hforall := Path.same_iff.1 h
  rw [sees?, sees?, remaining?, remaining?, hforall.length_eq]
  split
  · exact Registry.at?_same (Path.same_iff.2 (List.forall₂_drop _ hforall))
  · rfl

/-- Whether what a path leads to exists; a trailing property is one of the object before it. -/
def hasAt (c : Cursor) (r : Registry) (p : Path) : Bool :=
  c.has r { path := (Path.splitProperty p).1 } (Path.splitProperty p).2

theorem has_path (c : Cursor) (r : Registry) {m m' : Member} (h : m.path = m'.path) (p? : Option Property) :
    c.has r m p? = c.has r m' p? := by
  cases p? with
  | none => rw [has_none, has_none, h]
  | some q => rw [has_some, has_some, h]

theorem has_splitProperty (c : Cursor) (r : Registry) (m : Member) :
    c.has r m.splitProperty.1 m.splitProperty.2 = c.hasAt r m.path := by
  unfold Member.splitProperty hasAt
  have hjoin := Path.splitProperty_join m.path
  split
  next hs =>
    rw [hs, Option.map_none, Option.toList_none, List.append_nil] at hjoin
    rw [hs]
    exact has_path c r hjoin.symm none
  next hs => rw [hs]; exact has_path c r rfl _

theorem hasAt_property (c : Cursor) (r : Registry) (m : Member) (q : Property) :
    c.hasAt r (m.path ++ [.property q]) = c.has r m (some q) := by
  rw [hasAt, Path.splitProperty_concat]
  exact has_path c r rfl _

theorem has_of_hasAt (h : c.hasAt r m.path = true) : c.has r m none = true := by
  have hjoin := Path.splitProperty_join m.path
  rw [hasAt] at h
  cases hp : (Path.splitProperty m.path).2 with
  | none =>
    rw [hp, Option.map_none, Option.toList_none, List.append_nil] at hjoin
    rw [hp] at h
    rw [← h]
    exact has_path c r hjoin.symm none
  | some q =>
    rw [hp, Option.map_some, Option.toList_some] at hjoin
    rw [hp, has_some] at h
    obtain ⟨v, hv⟩ := Option.isSome_iff_exists.1 h
    obtain ⟨x, hx, hv⟩ := Option.bind_eq_some_iff.1 hv
    have hsees : c.sees? r m.path = some (.value v) := hjoin ▸ sees?_property r hx hv
    exact has_none_of_sees? hsees

theorem hasAt_same (hp : p.Concrete) (h : Path.same p q = true) : c.hasAt r p = c.hasAt r q := by
  have hsplit : ∀ {p : Path}, p.Concrete → (Path.splitProperty p).1.Concrete := fun {p} hp k hk =>
    hp k (Path.splitProperty_join p ▸ List.mem_append_left _ hk)
  have hq := (Path.concrete_same h).1 hp
  obtain ⟨hsame, hname⟩ := Path.splitProperty_same h
  rw [hasAt, hasAt]
  cases hp? : (Path.splitProperty p).2 with
  | none =>
    cases hq? : (Path.splitProperty q).2 with
    | some => rw [hp?, hq?] at hname; cases hname
    | none =>
      rw [has_none_concrete c r (hsplit hp), has_none_concrete c r (hsplit hq)]
      exact congrArg Option.isSome (sees?_same hsame)
  | some a =>
    cases hq? : (Path.splitProperty q).2 with
    | none => rw [hp?, hq?] at hname; cases hname
    | some b =>
      rw [hp?, hq?] at hname
      rw [has_some, has_some, sees?_same hsame]
      exact congrArg Option.isSome (Option.bind_congr fun x _ => Registry.read?_congr (Option.some.inj hname))

end Cursor

/-! ### What is mentioned -/

namespace Path

theorem firstExpansion?_concrete {p : Path} (hp : p.Concrete) : firstExpansion? p = none :=
  List.findIdx?_eq_none_iff.2 hp

theorem take_firstExpansion? (p : Path) :
    p.take ((firstExpansion? p).getD p.length) = p.takeWhile fun k => !k.isExpansion := by
  simp [firstExpansion?, List.takeWhile_eq_take_findIdx_not, List.findIdx_eq_getD_findIdx?]

theorem concrete_take_firstExpansion (p : Path) : Concrete (p.take ((firstExpansion? p).getD p.length)) := by
  rw [take_firstExpansion?]
  intro k hk
  simpa using List.all_eq_true.1 List.all_takeWhile k hk

end Path

/-- The operand, if it is another member, is a single one. -/
def Operand.isConcrete : Operand → Bool
  | member m => decide m.path.Concrete
  | value _ | sample _ => true

namespace Rule

def hasConcreteOperand : Rule → Bool
  | condition _ operand | property _ _ operand => operand.isConcrete
  | _ => true

/-- What it negates does not fan out. -/
def negatesHere : Rule → Bool
  | group .not rules => everywhereIn staysHere rules
  | _ => true

end Rule

namespace Mentions

/-- Something holds of the members and something of the operands. -/
structure Hold (P Q : Path → Prop) (ms : Mentions) : Prop where
  members : ∀ m ∈ ms.members, P m.path
  operands : ∀ m ∈ ms.operands, Q m.path

/-- What is so of a place is so of all places that mentions do not tell from it. -/
def Respects (P : Path → Prop) : Prop :=
  ∀ p q, Path.Concrete q → Path.same p q = true → P p → P q

theorem respects_hasAt (cur : Cursor) (r : Registry) : Respects fun p => cur.hasAt r p = true := fun _ _ hq hsame hp =>
  (Cursor.hasAt_same ((Path.concrete_same hsame).2 hq) hsame).symm.trans hp

theorem respects_sees? (cur : Cursor) (r : Registry) : Respects fun p => (cur.sees? r p).isSome = true :=
  fun _ _ _ hsame hp => (congrArg Option.isSome (Cursor.sees?_same hsame)).symm.trans hp

variable {P Q : Path → Prop} {ms : Mentions} {m : Member}

/-- The root is never noted. -/
theorem forall_note_iff_of_ne {noted : List Member} (hP : Respects P) (hm : m.path.Concrete) :
    (∀ x ∈ note m noted, P x.path) ↔ (m.path ≠ [] → P m.path) ∧ ∀ x ∈ noted, P x.path := by
  unfold note
  split
  next h =>
    refine ⟨fun hall => ⟨fun hne => ?_, hall⟩, And.right⟩
    rcases (Bool.or_eq_true ..).mp h with h | h
    · exact absurd (List.isEmpty_iff.1 h) hne
    · obtain ⟨x, hx, hsame⟩ := List.any_eq_true.1 h
      exact hP _ _ hm hsame (hall x hx)
  next h =>
    have hne : m.path ≠ [] := fun hnil => h (by simp [Member.isRoot, hnil])
    rw [List.forall_mem_append, List.forall_mem_singleton, and_comm]
    simp only [ne_eq, hne, not_false_eq_true, forall_const]

theorem off_root_iff {p : Path} (hroot : p = [] → P []) : (p ≠ [] → P p) ↔ P p := by
  refine ⟨fun h => ?_, fun h _ => h⟩
  by_cases hnil : p = []
  · rw [hnil]
    exact hroot hnil
  · exact h hnil

theorem forall_note_iff {noted : List Member} (hP : Respects P) (hm : m.path.Concrete) (hroot : m.path = [] → P []) :
    (∀ x ∈ note m noted, P x.path) ↔ P m.path ∧ ∀ x ∈ noted, P x.path := by
  rw [forall_note_iff_of_ne hP hm, off_root_iff hroot]

theorem hold_member_iff_of_ne (hP : Respects P) (hm : m.path.Concrete) :
    (ms.member m).Hold P Q ↔ ms.Hold P Q ∧ (m.path ≠ [] → P m.path) := by
  have hnote : (∀ x ∈ (ms.member m).members, P x.path) ↔ (m.path ≠ [] → P m.path) ∧ ∀ x ∈ ms.members, P x.path :=
    forall_note_iff_of_ne hP hm
  exact ⟨fun h => ⟨⟨(hnote.1 h.members).2, h.operands⟩, (hnote.1 h.members).1⟩,
    fun h => ⟨hnote.2 ⟨h.2, h.1.members⟩, h.1.operands⟩⟩

theorem hold_member_iff (hP : Respects P) (hm : m.path.Concrete) (hroot : m.path = [] → P []) :
    (ms.member m).Hold P Q ↔ ms.Hold P Q ∧ P m.path := by
  rw [hold_member_iff_of_ne hP hm, off_root_iff hroot]

theorem concrete_operand (h : ∀ m ∈ ms.operands, m.path.Concrete) (o : Operand) :
    ∀ m ∈ (ms.operand o).operands, m.path.Concrete := by
  cases o with
  | value | sample => exact h
  | member m =>
    intro x hx
    rw [operand] at hx
    unfold note at hx
    split at hx
    · exact h x hx
    · rcases List.mem_append.1 hx with hx | hx
      · exact h x hx
      · cases List.mem_singleton.1 hx
        exact Path.concrete_take_firstExpansion m.path

theorem hold_operand_iff {operand : Operand} (hQ : Respects Q) (hroot : Q []) (ho : operand.isConcrete = true) :
    (ms.operand operand).Hold P Q ↔ ms.Hold P Q ∧ ∀ m, operand = .member m → Q m.path := by
  cases operand with
  | value | sample => exact ⟨fun h => ⟨h, nofun⟩, And.left⟩
  | member m =>
    have hm : m.path.Concrete := of_decide_eq_true ho
    have hcut : m.path.take ((Path.firstExpansion? m.path).getD m.path.length) = m.path := by
      rw [Path.firstExpansion?_concrete hm, Option.getD_none, List.take_length]
    have hnote : (∀ x ∈ (ms.operand (.member m)).operands, Q x.path) ↔
        Q m.path ∧ ∀ x ∈ ms.operands, Q x.path := by
      rw [operand, hcut]
      exact forall_note_iff hQ hm fun _ => hroot
    refine ⟨fun h => ⟨⟨h.members, (hnote.1 h.operands).2⟩, ?_⟩,
      fun h => ⟨h.1.members, hnote.2 ⟨h.2 m rfl, h.1.operands⟩⟩⟩
    rintro _ ⟨⟩
    exact (hnote.1 h.operands).1

end Mentions

/-! ### What is read -/

/-- Something holds of what a leaf reads, or of all that is mentioned under a negation. -/
def Plan.Reads (P Q : Path → Prop) : Plan → Prop
  | ask (.check _ k) =>
    P (k.member.path ++ (k.property?.map Key.property).toList) ∧ ∀ m, k.operand = .member m → Q m.path
  | within (.group .not scope rules) _ => (Mentions.ofRules scope rules).Hold P Q
  | _ => True

theorem Plan.reads_compare {P Q : Path → Prop} (scope : Member) (p? : Option Property) (op : Operator)
    (operand : Operand) : (ask (.compare scope p? op operand)).Reads P Q ↔
      P (scope.path ++ (p?.map Key.property).toList) ∧ ∀ m, operand = .member m → Q m.path := by
  cases operand with
  | member | sample => rfl
  | value v =>
    rw [Leaf.compare]
    cases hroot : scope.isRoot with
    | false => rfl
    | true =>
      rw [List.isEmpty_iff.1 hroot]
      rfl

namespace Mentions
variable {P Q : Path → Prop} {ms : Mentions}

mutual

/-- Operands are cut at their first expansion. -/
theorem concrete_operands_rule : ∀ (r : Rule) (scope : Member) {ms : Mentions},
    (∀ m ∈ ms.operands, m.path.Concrete) → ∀ m ∈ (rule scope ms r).operands, m.path.Concrete
  | .condition _ o, scope, ms, h => concrete_operand (show ∀ m ∈ (ms.member scope).operands, _ from h) o
  | .property p _ o, scope, ms, h =>
    concrete_operand (show ∀ m ∈ (ms.member (scope.extend [.property p])).operands, _ from h) o
  | .presence _, _, _, h => h
  | .elements .., _, _, h => h
  | .bind m body, scope, ms, h => by
    rw [rule]
    split
    · exact h
    · exact concrete_operands_rule body _ h
  | .group _ rs, scope, _, h => concrete_operands_rules rs scope h
  | .explain _ body, scope, _, h => concrete_operands_rule body scope h

theorem concrete_operands_rules : ∀ (rs : List Rule) (scope : Member) {ms : Mentions},
    (∀ m ∈ ms.operands, m.path.Concrete) → ∀ m ∈ (rules scope ms rs).operands, m.path.Concrete
  | [], _, _, h => h
  | r :: rs, scope, _, h => concrete_operands_rules rs scope (concrete_operands_rule r scope h)

end

mutual

/-- What holds of all that a rule without expansions mentions holds of all that it reads, and the
other way round. -/
theorem hold_rule_iff (hP : Respects P) (hQ : Respects Q) (hroot : Q []) : ∀ (r : Rule) (ms : Mentions)
    {scope scope' : Member}, r.isLocal = true → r.everywhere Rule.hasConcreteOperand = true →
    scope.path.Concrete → (scope.path = [] → P []) → scope'.path = scope.path →
    ((rule scope ms r).Hold P Q ↔ ms.Hold P Q ∧ (r.plan scope').Everywhere (Plan.Reads P Q))
  | .condition op operand, ms, scope, scope', _, ho, hs, hn, he => by
    rw [rule, hold_operand_iff hQ hroot ho, hold_member_iff hP hs hn, Rule.plan, Plan.everywhere_ask_iff,
      Plan.reads_compare, he, Option.map_none, Option.toList_none, List.append_nil, and_assoc]
  | .property p op operand, ms, scope, scope', _, ho, hs, hn, he => by
    have hp : (scope.extend [.property p]).path.Concrete := hs.append (List.forall_mem_singleton.2 rfl)
    rw [rule, hold_operand_iff hQ hroot ho, hold_member_iff hP hp (by simp [Member.extend]), Rule.plan,
      Plan.everywhere_ask_iff, Plan.reads_compare, he, and_assoc]
    rfl
  | .presence _, _, _, _, _, _, _, _, _ => ⟨fun h => ⟨h, .ask trivial⟩, And.left⟩
  | .bind m body, ms, scope, scope', hl, ho, hs, hn, he => by
    rw [Rule.isLocal, Rule.everywhere, Bool.and_eq_true] at hl
    have hm : m.path.Concrete := of_decide_eq_true hl.1
    rw [rule, Path.firstExpansion?_concrete hm, Rule.plan, Plan.along_concrete hm]
    refine hold_rule_iff hP hQ hroot body ms hl.2 ho (hs.append hm) (fun h => hn (List.append_eq_nil_iff.1 h).1) ?_
    exact congrArg (· ++ m.path) he
  | .group k rs, ms, scope, scope', hl, ho, hs, hn, he => by
    rw [rule, hold_rules_iff hP hQ hroot rs ms hl ho hs hn he, Rule.plan, Plan.everywhere_within_iff,
      Plan.everywhere_connect_iff]
    refine and_congr_right fun _ => ⟨fun h => ⟨?_, trivial, h⟩, fun h => h.2.2⟩
    cases k with
    | and | or => trivial
    | not =>
      -- the rules are listed once more for a negation of their own
      have hown : (rules scope' empty rs).Hold P Q ↔
          empty.Hold P Q ∧ ∀ p ∈ Rule.plans rs scope', p.Everywhere (Plan.Reads P Q) :=
        hold_rules_iff hP hQ hroot rs empty hl ho (he ▸ hs) (fun h => hn (he ▸ h)) rfl
      exact hown.2 ⟨⟨nofun, nofun⟩, h⟩
  | .explain _ body, ms, scope, scope', hl, ho, hs, hn, he => by
    rw [rule, hold_rule_iff hP hQ hroot body ms hl ho hs hn he, Rule.plan, Plan.everywhere_within_iff]
    exact and_congr_right fun _ => ⟨fun h => ⟨trivial, h⟩, And.right⟩

theorem hold_rules_iff (hP : Respects P) (hQ : Respects Q) (hroot : Q []) : ∀ (rs : List Rule) (ms : Mentions)
    {scope scope' : Member},
    Rule.everywhereIn Rule.staysHere rs = true → Rule.everywhereIn Rule.hasConcreteOperand rs = true →
    scope.path.Concrete → (scope.path = [] → P []) → scope'.path = scope.path →
    ((rules scope ms rs).Hold P Q ↔ ms.Hold P Q ∧ ∀ p ∈ Rule.plans rs scope', p.Everywhere (Plan.Reads P Q))
  | [], _, _, _, _, _, _, _, _ => ⟨fun h => ⟨h, fun _ hp => absurd hp List.not_mem_nil⟩, And.left⟩
  | r :: rs, ms, scope, scope', hl, ho, hs, hn, he => by
    rw [Rule.everywhereIn, Bool.and_eq_true] at hl ho
    rw [rules, hold_rules_iff hP hQ hroot rs _ hl.2 ho.2 hs hn he, hold_rule_iff hP hQ hroot r ms hl.1 ho.1 hs hn he,
      Rule.plans, List.forall_mem_cons, and_assoc]

end

end Mentions

end Conform
