import Conform.Proofs.Presentation
import Conform.Proofs.Segments
import Conform.Proofs.Unison

/-!
# Display names in reports

A display name stands for the whole path of the member that it is given to. On the way to the leaf the path
is cut, extended, and replaced in part by keys that stand for any element, and the name goes on covering all
that is shown (`Member.Bears`). So where a comparison fails, the report is one sentence about the name
(`Validator.text_named`). Only a trailing property, which the comparison splits off, is still mentioned.
-/

namespace Conform

/-! ### Names that cover what is shown -/

namespace Member
variable {m : Member} {s : NameSpan} {room : Nat}

/-- The only display name of the member begins where its path does and has room for further keys. -/
structure Bears (m : Member) (s : NameSpan) (room : Nat) : Prop where
  names : m.names = [s]
  start : s.start = 0
  length : m.shown.length = m.path.length
  stop : m.path.length + room ≤ s.stop

theorem Bears.extend (h : m.Bears s (room + 1)) (k : Key) : (m.extend [k]).Bears s room where
  names := h.names
  start := h.start
  length := by rw [shown_extend, Member.extend, List.length_append, List.length_append, h.length]
  stop := by
    have hlength : (m.extend [k]).path.length = m.path.length + 1 := List.length_append
    have hstop := h.stop
    omega

/-- An element that is one key away is covered as well, by whatever key it is shown. -/
theorem Bears.element (h : m.Bears s (room + 1)) (k : Key) (display? : Option Key) :
    (m.element [k] display?).Bears s room := by
  cases display? with
  | none => exact h.extend k
  | some shown =>
    have hshown : (m.element [k] (some shown)).shown = m.shown ++ [shown] := rfl
    have hlength : (m.element [k] (some shown)).path.length = m.path.length + 1 := List.length_append
    refine ⟨h.names, h.start, ?_, ?_⟩
    · rw [hshown, hlength, List.length_append, h.length]
      rfl
    · have hstop := h.stop
      omega

theorem isRoot_element (m : Member) (k : Key) (display? : Option Key) : (m.element [k] display?).isRoot = false :=
  List.isEmpty_eq_false_iff.2 (List.append_ne_nil_of_right_ne_nil _ (List.cons_ne_nil _ _))

theorem Bears.segments (h : m.Bears s room) (hm : m.isRoot = false) : m.segments = [⟨m.shown, some s⟩] := by
  cases hshown : m.shown with
  | nil =>
    have hpath : m.path = [] := List.length_eq_zero_iff.1 (by rw [← h.length, hshown]; rfl)
    rw [isRoot, hpath] at hm
    cases hm
  | cons k ks =>
    have hroom : ks.length + 1 ≤ s.stop := by
      have hlength := h.length
      have hstop := h.stop
      rw [hshown, List.length_cons] at hlength
      omega
    have hname : nameAt? [s] 0 = some s := by
      have hstop : 0 < s.stop := by omega
      simp [nameAt?, h.start, hstop]
    have hall : (k :: ks).length ≤ s.stop - 0 := hroom
    have hcut := m.segmented_segments
    rw [h.names, hshown] at hcut
    rw [hcut.unique (.name hname (by rw [List.drop_eq_nil_of_le hall]; exact .nil _)), List.take_of_length_le hall]

theorem Bears.memberPhrase (h : m.Bears s room) (hm : m.isRoot = false) (context : Grammar) :
    (Locale.english.memberPhrase context m).text = s.text := by
  rw [Locale.memberPhrase, h.segments hm]
  exact String.append_empty

theorem Bears.subjectPhrase (h : m.Bears s room) (hm : m.isRoot = false) (property? : Option Property) :
    (Locale.english.subjectPhrase m property?).text =
      match property?.filter fun p => !p.isValue with
      | none => s.text
      | some p => p.name ++ " of " ++ s.text := by
  rw [Locale.subjectPhrase]
  cases property?.filter fun p => !p.isValue with
  | none => exact h.memberPhrase hm .empty
  | some p =>
    have howner := h.memberPhrase hm (Grammar.empty.union .empty)
    have hof : " of " = " " ++ "of" ++ " " := by decide
    simp only [hm, Bool.false_eq_true, if_false]
    show p.name ++ " " ++ "of" ++ " " ++ (Locale.english.memberPhrase (Grammar.empty.union .empty) m).text = _
    simp only [howner, hof, String.append_assoc]

theorem subjectPhrase_root (property? : Option Property) :
    (Locale.english.subjectPhrase root property?).text =
      match property?.filter fun p => !p.isValue with
      | none => ""
      | some p => p.name := by
  rw [Locale.subjectPhrase]
  cases property?.filter fun p => !p.isValue <;> rfl

end Member

/-! ### Named members -/

/-- What the operator asks of someone, in English: who it is about, its description and its operand. -/
def Operator.sentence (op : Operator) (who : String) (x : Value) : String :=
  Locale.sentence [who, op.describe x false, if op.showsOperand x false then Locale.english.literal .empty x else ""]

namespace Locale

theorem leafText_compare (scope : Member) (property? : Option Property) (op : Operator) (x : Value)
    (hflag : ∀ w b, property?.bind Property.wording? = some w → x = .bool b → op.isFlag = false) :
    english.leafText false (.compare scope property? op (.value x)) =
      op.sentence (english.subjectPhrase (if scope.isRoot then .root else scope) property?).text x := by
  have hcondition : ∀ m : Member, english.condition ⟨m, property?, op, .value x⟩ false =
      op.sentence (english.subjectPhrase m property?).text x := by
    intro m
    have hnone : english.flagText? ⟨m, property?, op, .value x⟩ false = none := by
      rw [flagText?]
      split
      next w b hwording hoperand =>
        cases hoperand
        rw [hflag w b hwording rfl]
        rfl
      · rfl
    rw [condition, hnone]
    rfl
  cases hroot : scope.isRoot with
  | true => rw [Leaf.compare, hroot]; exact hcondition .root
  | false => rw [Leaf.compare, hroot]; exact hcondition scope

end Locale

namespace Member

/-- What a report calls the member under a display name: a trailing property, other than the value, is
mentioned before the name, and instead of it if it is a property of the validated object. -/
def spokenAs (m : Member) (name : String) : String :=
  match m.splitProperty.2.filter fun p => !p.isValue with
  | none => if m.splitProperty.1.isRoot then "" else name
  | some p => if m.splitProperty.1.isRoot then p.name else p.name ++ " of " ++ name

theorem splitProperty_named (m : Member) (name : String) (g : Grammar) :
    (m.named name g).splitProperty =
      ({ m.splitProperty.1 with names := [⟨name, g, 0, m.shown.length⟩] }, m.splitProperty.2) := by
  have hpath : (m.named name g).path = m.path := rfl
  rw [splitProperty, splitProperty, hpath]
  cases Path.splitProperty m.path with
  | mk path property? => cases property? <;> rfl

theorem bears_named {m : Member} (hdisplay : m.display? = none) (name : String) (g : Grammar) :
    (root.adoptNames (m.named name g).splitProperty.1).Bears ⟨name, g, 0, m.path.length⟩
      (m.named name g).splitProperty.1.path.length where
  names := by rw [splitProperty_named, shown, hdisplay]; rfl
  start := rfl
  length := rfl
  stop := by
    have hlength := congrArg List.length (m.named name g).splitProperty_join
    rw [List.length_append] at hlength
    show 0 + (m.named name g).splitProperty.1.path.length ≤ (m.named name g).path.length
    omega

theorem trailingProperty?_eq (m : Member) : m.trailingProperty? = m.splitProperty.2 := by
  rw [trailingProperty?, splitProperty]
  cases Path.splitProperty m.path with
  | mk path property? => cases property? <;> rfl

theorem spokenAs_eq {m : Member} (hm : m.isRoot = false) (h : m.trailingProperty? = none) (name : String) :
    m.spokenAs name = name := by
  have hjoin := m.splitProperty_join
  rw [trailingProperty?_eq] at h
  rw [h, Option.map_none, Option.toList_none, List.append_nil] at hjoin
  have howner : m.splitProperty.1.isRoot = false := by rw [isRoot, hjoin]; exact hm
  rw [spokenAs, h, howner]
  rfl

theorem plan_check (m : Member) (op : Operator) (operand : Operand) :
    (m.check op operand).plan root =
      Plan.askAlong (fun scope => .compare scope m.splitProperty.2 op operand) m.splitProperty.1.path
        (if m.splitProperty.1.isRoot then root else root.adoptNames m.splitProperty.1) := by
  rw [check]
  cases m.splitProperty with
  | mk owner property? =>
    cases hroot : owner.isRoot with
    | true =>
      have hpath : owner.path = [] := List.isEmpty_iff.1 hroot
      cases property? <;> simp [apply, hroot, hpath, Plan.askAlong, Plan.along, Rule.plan]
    | false => cases property? <;> simp [apply, hroot, Plan.askAlong, Rule.plan]

/-- A place on the way to the owner of a comparison, with so many keys to come: the validated object, if that is
the owner, or a member that bears the name. -/
inductive OnWay (owner : Member) (s : NameSpan) : Nat → Member → Prop
  | here (h : owner.isRoot = true) : OnWay owner s 0 root
  | below {n : Nat} {m : Member} (h : owner.isRoot = false) (hbears : m.Bears s n)
    (hplace : n = 0 → m.isRoot = false) : OnWay owner s n m

theorem OnWay.element {owner m : Member} {s : NameSpan} {n : Nat} (h : OnWay owner s (n + 1) m) (k : Key)
    (display? : Option Key) : OnWay owner s n (m.element [k] display?) := by
  cases h with
  | below h hbears => exact .below h (hbears.element k display?) fun _ => m.isRoot_element k display?

theorem onWay_named {m : Member} (hdisplay : m.display? = none) (name : String) (g : Grammar) :
    let owner := (m.named name g).splitProperty.1
    OnWay owner ⟨name, g, 0, m.path.length⟩ owner.path.length
      (if owner.isRoot then root else root.adoptNames owner) := by
  intro owner
  cases hroot : owner.isRoot with
  | true =>
    rw [List.isEmpty_iff.1 hroot]
    exact .here hroot
  | false =>
    have hne : owner.path.length ≠ 0 := fun hzero => by
      rw [isRoot, List.length_eq_zero_iff.1 hzero] at hroot
      cases hroot
    rw [if_neg Bool.false_ne_true]
    exact .below hroot (bears_named hdisplay name g) fun hzero => absurd hzero hne

theorem OnWay.subjectPhrase {m place : Member} {name : String} {g : Grammar} {n : Nat}
    (h : OnWay (m.named name g).splitProperty.1 ⟨name, g, 0, n⟩ 0 place) :
    (Locale.english.subjectPhrase (if place.isRoot then root else place) m.splitProperty.2).text = m.spokenAs name := by
  have howner : (m.named name g).splitProperty.1.isRoot = m.splitProperty.1.isRoot := by
    rw [splitProperty_named]
    rfl
  rw [spokenAs, ← howner]
  cases h with
  | here hroot =>
    rw [if_pos (by rfl), subjectPhrase_root, hroot]
    cases m.splitProperty.2.filter fun p => !p.isValue <;> rfl
  | below hroot hbears hplace =>
    rw [hplace rfl, if_neg Bool.false_ne_true, hbears.subjectPhrase (hplace rfl), hroot]
    cases m.splitProperty.2.filter fun p => !p.isValue <;> rfl

/-- What is told along the path of a named member is the comparison, worded with the name, or the question
that a guard puts in its place. -/
theorem leafText_named {c : Chain} (hown : ∀ layer ∈ c.layers, layer.role ≠ .own) {m : Member}
    (hdisplay : m.display? = none) (htree : ∀ e, .expand e ∈ m.path → e.isTree = false) {op : Operator}
    {x : Value} (hflag : ∀ w b, m.trailingProperty?.bind Property.wording? = some w → x = .bool b → op.isFlag = false)
    (name : String) (g : Grammar) (cur : Cursor) :
    ∀ l ∈ Outline.leavesOf ((((m.named name g).check op (.value x)).plan root).told c cur),
      l.isCheck = true ∧ Locale.english.leafText false l = op.sentence (m.spokenAs name) x ∨
        l.isCheck = false ∧ Layer.guard true ∈ c.layers := by
  intro l hl
  have hproperty : (m.named name g).splitProperty.2 = m.splitProperty.2 := by rw [splitProperty_named]
  have hjoin : (m.named name g).splitProperty.1.path ++ _ = m.path := (m.named name g).splitProperty_join
  have htree : ∀ e, .expand e ∈ (m.named name g).splitProperty.1.path → e.isTree = false := fun e he =>
    htree e (hjoin ▸ List.mem_append_left _ he)
  rw [trailingProperty?_eq] at hflag
  rw [plan_check, hproperty] at hl
  rcases Plan.leaves_along hown (OnWay _ _) (fun k display? h => h.element k display?) htree
    (onWay_named hdisplay name g) l hl with ⟨place, hplace, rfl⟩ | hguard
  · exact .inl ⟨Leaf.isCheck_compare .., by rw [Locale.leafText_compare _ _ _ _ hflag, hplace.subjectPhrase]⟩
  · exact .inr hguard

end Member

namespace Validator

/-- A comparison of a member that has been given a display name: if it fails and the leaves that fail are the
comparison itself, the report is one sentence, about the name unless the member ends with a property. A pass
that fails has such leaves, unless empty containers fail by themselves, and only under a policy by which
a missing member fails are there others. -/
theorem text_named (v : Validator) (m : Member) (name : String) (g : Grammar) (op : Operator) (x : Value)
    (hdisplay : m.display? = none) (htree : ∀ e, .expand e ∈ m.path → e.isTree = false)
    (hflag : ∀ w b, m.trailingProperty?.bind Property.wording? = some w → x = .bool b → op.isFlag = false)
    (hlocale : v.locale = .english) (hrule : v.rule = (m.named name g).check op (.value x)) (o : Object) (f : Filter) :
    let failing := Outline.failingOf (v.told o f)
    (failing ≠ [] → (∀ l ∈ failing, l.isCheck = true) →
      (v.run o f).status = .fail ∧ (v.run o f).text = op.sentence (m.spokenAs name) x) ∧
    ((v.run o f).status = .fail → v.terms.settings.allEmpty ≠ .fail → failing ≠ []) ∧
    (v.terms.settings.existence ≠ .abort → ∀ l ∈ failing, l.isCheck = true) := by
  intro failing
  have hreports := v.reports_chain f
  have hown := v.own_chain f
  have hplan := Member.plan_check (m.named name g) op (.value x)
  have hleaves := Member.leafText_named hown hdisplay htree hflag name g (.start o)
  rw [← hrule] at hplan hleaves
  have hleaves := fun l (hl : l ∈ failing) => hleaves l (Outline.mem_leavesOf_of_mem_failingOf hl)
  refine ⟨fun hne hchecks => ⟨?_, ?_⟩, fun hfail hempty => ?_, fun hpolicy l hl => ?_⟩
  · rw [status_run]
    by_contra hpasses
    refine hne (Outline.failingOf_eq_nil fun t ht hfail => hpasses ?_)
    exact Plan.fail_of_told hreports (v.rule.plan_ne_connect .root) ht hfail
  · have htexts : ∀ l ∈ failing, Locale.english.leafText false l = op.sentence (m.spokenAs name) x := by
      intro l hl
      rcases hleaves l hl with ⟨-, htext⟩ | ⟨hcheck, -⟩
      · exact htext
      · rw [hchecks l hl] at hcheck
        cases hcheck
    have hsays : Outline.Says (op.sentence (m.spokenAs name) x) [] (v.told o f) := by
      rw [told, hplan]
      exact Plan.says_along hreports _ _ _ _ _ fun _ h => absurd h List.not_mem_nil
    have hsaid : Outline.said? (op.sentence (m.spokenAs name) x) (v.told o f) = some _ := if_neg hne
    rw [run_eq_report, hlocale, Outline.report, hsays htexts, hsaid]
    show "; ".intercalate [_] = _
    exact String.intercalate_singleton
  · rw [status_run, hplan] at hfail
    show Outline.failingOf ((v.rule.plan .root).told (v.chain f) (.start o)) ≠ []
    rw [hplan]
    exact Plan.failingOf_along hreports hown hempty hfail
  · rcases hleaves l hl with ⟨hcheck, -⟩ | ⟨-, hguard⟩
    · exact hcheck
    · rw [layers_chain] at hguard
      cases f <;> cases hexistence : v.terms.settings.existence <;>
        simp_all [Filter.layers, Layer.ofExistence?]

/-- Every order is to have an item that costs more than 10. Both items of the second one are too cheap, and
the same is said of them. -/
theorem text_named_orders :
    let m : Member :=
      { path := [.name "orders", .expand (.each .all), .name "items", .expand (.variadic .any .size), .name "price"] }
    let v : Validator := { rule := (m.named "the dearest price" .empty).check (.compare .gt) (.value (.int 10)) }
    let order (prices : List Int) : Json := .object [("items", .list (prices.map fun x => .object [("price", .int x)]))]
    let o : Object := .json (.object [("orders", .list [order [5, 20], order [5, 7]])])
    let failing := Outline.failingOf (v.told o .everything)
    (m.display? = none ∧ (∀ e, .expand e ∈ m.path → e.isTree = false) ∧
      (∀ w b, m.trailingProperty?.bind Property.wording? = some w → Value.int 10 = .bool b →
        (Operator.compare .gt).isFlag = false) ∧
      v.locale = .english ∧ v.rule = (m.named "the dearest price" .empty).check (.compare .gt) (.value (.int 10))) ∧
    failing.length = 2 ∧ (v.validate o).text = "the dearest price must be greater than 10" := by
  intro m v order o failing
  have htree : ∀ e, .expand e ∈ m.path → e.isTree = false := by
    intro e he
    simp only [m, List.mem_cons, List.not_mem_nil, reduceCtorEq, Key.expand.injEq, false_or, or_false] at he
    rcases he with rfl | rfl <;> rfl
  have h := text_named v m "the dearest price" .empty (.compare .gt) (.int 10) rfl htree nofun rfl rfl o .everything
  have hlength : failing.length = 2 := by decide +kernel
  have hne : failing ≠ [] := List.ne_nil_of_length_eq_add_one hlength
  refine ⟨⟨rfl, htree, nofun, rfl, rfl⟩, hlength, (h.1 hne (h.2.2 nofun)).2.trans ?_⟩
  rw [Member.spokenAs_eq rfl rfl]
  decide +kernel

/-- The property that a named member ends with is still mentioned, and of a property of the validated object
the name is lost. -/
theorem text_named_mentions_property :
    let tags : Member := { path := [.name "tags", .property .size] }
    let size : Member := { path := [.property .size] }
    let rule (m : Member) : Rule := (m.named "the number of tags" .empty).check (.compare .le) (.value (.int 1))
    let o : Object := .json (.object [("tags", .list [.int 1, .int 2]), ("note", .null)])
    let outcome (m : Member) := ({ rule := rule m } : Validator).validate o
    (outcome tags).text = "size of the number of tags must be less than or equal to 1" ∧
      (outcome size).text = "size must be less than or equal to 1" ∧
      ∀ m ∈ [tags, size], (outcome m).status = .fail ∧
        (outcome m).text ≠ (Operator.compare .le).sentence "the number of tags" (.int 1) := by
  decide +kernel

end Validator

end Conform
