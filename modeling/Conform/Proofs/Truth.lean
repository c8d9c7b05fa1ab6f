import Conform.Proofs.Direct
import Conform.Proofs.Readings
import Conform.Proofs.Silence

/-!
# What a report says of the object

Where nothing answers for a rule, every leaf that is told has been asked as it is. So, if leaves are
answered as their paths say, what a rule leaves in a report is read from the object itself
(`Rule.reads_plan`), and the text of a pass that fails reads as something false
(`Validator.text_reads_false`). That is not so for existence that is asked of the first node of a tree
that begins at a property: there the text is one true phrase.
-/

namespace Conform

/-! ### Leaves of the object -/

/-- The answer of a leaf, read from `o` by full paths. -/
def Terms.answerAt (t : Terms) (o : Object) : Leaf → Status
  | .check _ k => t.compareAt o (k.member.path ++ (k.property?.map Key.property).toList) k.operator k.operand
  | .presence m p? expected =>
    .ofBool ((t.registry.find? o (m.path ++ (p?.map Key.property).toList)).isSome == expected)

theorem Terms.answerAt_compare (t : Terms) (o : Object) (scope : Member) (p? : Option Property) (op : Operator)
    (operand : Operand) : t.answerAt o (.compare scope p? op operand) =
      t.compareAt o (scope.path ++ (p?.map Key.property).toList) op operand := by
  cases operand with
  | member | sample => rfl
  | value v =>
    rw [Leaf.compare]
    split
    next h =>
      have hpath : scope.path = [] := List.isEmpty_iff.1 h
      rw [answerAt, hpath]
      rfl
    · rfl

/-- What is known of a pass through no layers that is about to ask of the place `p`. -/
structure Standing.Follows (st : Standing) (r : Registry) (o : Object) (cur : Cursor) (p : Path) : Prop where
  tracks : cur.Tracks r o p
  describes : st.Describes cur p

namespace Standing.Follows
variable {st : Standing} {t : Terms} {o : Object} {cur : Cursor} {scope : Member}

theorem extend {p : Path} {k : Key} (h : st.Follows t.registry o cur p) (hk : k.isExpansion = false) :
    (st.after k).Follows t.registry o cur (p ++ [k]) :=
  ⟨h.tracks.extend hk, .extend h.tracks hk⟩

theorem atElement {e : Expansion} {found : List (Path × Object)} {x : Path × Object} (ho : o.WellFormed)
    (h : st.Follows t.registry o cur scope.path) (hfound : cur.found? t scope.path e = some found) (hx : x ∈ found) :
    (st.after (.expand e)).Follows t.registry o (cur.atElement scope x) (scope.path ++ x.1) := by
  rw [Cursor.found?, h.tracks.sees] at hfound
  obtain ⟨y, hy, hfound⟩ := Option.bind_eq_some_iff.1 hfound
  have hl := Registry.leads_of_mem_found? (Registry.wellFormed_at? ho hy) hfound hx
  exact ⟨h.tracks.atElement hy hl, h.describes.atElement hfound hx hl⟩

theorem answer_compare (h : st.Follows t.registry o cur scope.path) (p? : Option Property) (op : Operator)
    (operand : Operand) :
    t.answerAt o (.compare scope p? op operand) = cur.answer t.registry (.compare scope p? op operand) := by
  have hk : cur.compare t.registry ⟨scope, p?, op, operand⟩ = _ := h.tracks.compare_eq (k := ⟨scope, p?, op, operand⟩)
  rw [Cursor.answer_compare, hk, t.answerAt_compare]

theorem answer_presence (h : st.Follows t.registry o cur scope.path) (hnode : st ≠ .node) (expected : Bool) :
    t.answerAt o (.presence scope.splitProperty.1 scope.splitProperty.2 expected) =
      cur.answer t.registry (.presence scope.splitProperty.1 scope.splitProperty.2 expected) := by
  rw [Terms.answerAt, Cursor.answer, scope.splitProperty_join, h.tracks.has_eq (h.describes.owner_le h.tracks hnode)]

end Standing.Follows

/-! ### Passes that answer for nothing -/

namespace Chain.IsWhole
variable {c : Chain} {policy : Existence} (h : c.IsWhole policy) (hpolicy : policy ≠ .abort)
include h hpolicy

theorem route_eq (cur : Cursor) (l : Leaf) :
    c.route cur l = .asked cur l ∨ c.route cur l = .settled .ignore ∧ cur.answer c.registry l = .ignore := by
  cases policy with
  | abort => exact absurd rfl hpolicy
  | optimistic => exact .inl (by rw [route, h.layers]; rfl)
  | safe =>
    have hlayers : c.layers = [.guard false, .reporting] := h.layers
    rw [route, hlayers, routeThrough]
    rcases c.guarded_safe cur l with hq | ⟨hq, hignore⟩
    · rw [hq]
      exact .inl rfl
    · rw [hq]
      exact .inr ⟨rfl, hignore⟩

theorem enters?_eq (cur : Cursor) (b : Branch) : c.enters? cur b = some cur := by
  rw [enters?, h.layers]
  cases policy with
  | abort => exact absurd rfl hpolicy
  | optimistic | safe => rfl

theorem branchTold_eq (cur : Cursor) (b : Branch) (told : Cursor → List Outline) (answer : Cursor → Status) :
    c.branchTold cur b told answer = [.frame b.frame (told cur) (answer cur)] := by
  have hprologue : c.prologue cur b = [] := by
    rw [prologue, h.layers]
    cases policy with
    | abort => exact absurd rfl hpolicy
    | optimistic | safe => rfl
  rw [branchTold, hprologue, h.enters?_eq hpolicy]
  rfl

end Chain.IsWhole

/-! ### Plans -/

namespace Outline
variable {answer : Leaf → Status} {around : List FrameKind} {s : Status}

/-- Rules side by side that must all succeed. -/
structure Conjoins (answer : Leaf → Status) (around : List FrameKind) (s : Status) (items : List Told) : Prop where
  reads : ∀ i ∈ items, ReadsTrue answer around i.1 i.2
  source : reported around s = true → ∃ i ∈ items, i.1 = s
  passed : s ≠ .fail → ∀ i ∈ items, i.1 ≠ .fail

theorem ReadsTrue.conjoins {ts : List Outline} (h : ReadsTrue answer around s ts) :
    Conjoins answer around s [(s, ts)] where
  reads i hi := by
    rw [List.mem_singleton.1 hi]
    exact h
  source _ := ⟨_, List.mem_singleton_self _, rfl⟩
  passed hs i hi := by
    rw [List.mem_singleton.1 hi]
    exact hs

theorem exists_gathered {α : Type} {xs : List α} {status : α → Status} {told : α → List Outline}
    (h : ∀ x ∈ xs, ∃ items, items.flatMap Prod.snd = told x ∧ Conjoins answer around (status x) items) :
    ∃ items : List Told, items.flatMap Prod.snd = xs.flatMap told ∧ (∀ i ∈ items, ReadsTrue answer around i.1 i.2) ∧
      (∀ x ∈ xs, reported around (status x) = true → ∃ i ∈ items, i.1 = status x) ∧
      ∀ i ∈ items, i.1 = .fail → ∃ x ∈ xs, status x = .fail := by
  induction xs with
  | nil => exact ⟨[], rfl, nofun, nofun, nofun⟩
  | cons x xs ih =>
    obtain ⟨hx, hxs⟩ := List.forall_mem_cons.1 h
    obtain ⟨items, htold, hitems⟩ := hx
    obtain ⟨others, htolds, hreads, hsource, hfail⟩ := ih hxs
    refine ⟨items ++ others, ?_, ?_, ?_, ?_⟩
    · rw [List.flatMap_append, htold, htolds, List.flatMap_cons]
    · exact List.forall_mem_append.2 ⟨hitems.reads, hreads⟩
    · refine List.forall_mem_cons.2 ⟨fun hrep => ?_, fun y hy hrep => ?_⟩
      · obtain ⟨i, hi, heq⟩ := hitems.source hrep
        exact ⟨i, List.mem_append_left _ hi, heq⟩
      · obtain ⟨i, hi, heq⟩ := hsource y hy hrep
        exact ⟨i, List.mem_append_right _ hi, heq⟩
    · intro i hi hifail
      rcases List.mem_append.1 hi with hi | hi
      · by_contra hnone
        have hx : status x ≠ .fail := fun hx => hnone ⟨x, List.mem_cons_self .., hx⟩
        exact hitems.passed hx i hi hifail
      · obtain ⟨y, hy, hyfail⟩ := hfail i hi hifail
        exact ⟨y, List.mem_cons_of_mem _ hy, hyfail⟩

end Outline

theorem Status.allOf_of_mem_fail {statuses : List Status} (h : .fail ∈ statuses) : allOf statuses = .fail :=
  if_pos (List.any_eq_true.2 ⟨_, h, rfl⟩)

theorem Status.anyOf_of_mem_success {statuses : List Status} (h : .success ∈ statuses) : anyOf statuses = .success :=
  if_pos (List.any_eq_true.2 ⟨_, h, rfl⟩)

/-- A success is reported only below a negation. -/
theorem Outline.contains_not_of_reported {around : List FrameKind} (h : reported around .success = true) :
    around.contains .not = true := by
  simp only [reported, Bool.and_eq_true, Bool.or_eq_true] at h
  rcases h.2 with hfail | hinside
  · cases hfail
  · exact hinside.1

theorem Outline.contains_not_elements (q : Quantifier) (container : Member) (around : List FrameKind) :
    ((Branch.elements q container).frame :: around).contains .not = around.contains .not := by
  cases q <;> rfl

namespace Plan

open Outline

variable {c : Chain} {policy : Existence} {answer : Leaf → Status} {around : List FrameKind} {cur : Cursor}

/-- The plans of a connective that are run, with what they answer and tell. -/
def asked (c : Chain) (k : Connective) (plans : List Plan) (cur : Cursor) : List Told :=
  (upTo (fun p => k.decides (p.verdict c cur)) plans).map fun p => (p.verdict c cur, p.told c cur)

theorem flatMap_asked (k : Connective) (plans : List Plan) :
    (asked c k plans cur).flatMap Prod.snd = toldBy c k plans cur := by
  rw [asked, List.flatMap_map, toldBy_eq]

theorem exists_of_mem_asked {k : Connective} {plans : List Plan} {i : Told} (hi : i ∈ asked c k plans cur) :
    ∃ p ∈ plans, i = (p.verdict c cur, p.told c cur) := by
  obtain ⟨p, hp, rfl⟩ := List.mem_map.1 hi
  exact ⟨p, mem_of_mem_upTo hp, rfl⟩

theorem exists_asked_reported {k : Connective} {plans : List Plan} (hk : k ≠ .not)
    (hne : around.contains .not = true → plans ≠ []) (hrep : reported around ((connect k plans).verdict c cur) = true) :
    ∃ i ∈ asked c k plans cur, i.1 = (connect k plans).verdict c cur := by
  have hplans : plans ≠ [] := by
    rintro rfl
    have hsuccess : (connect k []).verdict c cur = .success := by
      rw [verdict_connect]
      cases k with
      | and | or => rfl
      | not => exact absurd rfl hk
    rw [hsuccess] at hrep
    exact hne (contains_not_of_reported hrep) rfl
  obtain ⟨p, hp, hanswer⟩ := exists_asked hplans (reported_ne_ignore hrep)
  rw [if_neg hk] at hanswer
  exact ⟨_, List.mem_map_of_mem hp, hanswer⟩

theorem conjoins_asked {plans : List Plan} (hne : around.contains .not = true → plans ≠ [])
    (hplans : ∀ p ∈ plans, ReadsTrue answer around (p.verdict c cur) (p.told c cur)) :
    Conjoins answer around ((connect .and plans).verdict c cur) (asked c .and plans cur) where
  reads i hi := by
    obtain ⟨p, hp, rfl⟩ := exists_of_mem_asked hi
    exact hplans p hp
  source hrep := exists_asked_reported (by decide) hne hrep
  passed hs i hi hfail := by
    obtain ⟨p, hp, rfl⟩ := exists_of_mem_asked hi
    rw [verdict_connect] at hs
    exact hs (Status.allOf_of_mem_fail (List.mem_map.2 ⟨p, hp, hfail⟩))

variable (h : c.IsWhole policy) (hpolicy : policy ≠ .abort)
include h hpolicy

theorem reads_ask {l : Leaf} (hl : answer l = cur.answer c.registry l) :
    ReadsTrue answer around ((ask l).verdict c cur) ((ask l).told c cur) := by
  have hverdict : (ask l).verdict c cur = (c.route cur l).status c.registry := h.reports.verdict_ask cur l
  rw [hverdict, told, Chain.askTold]
  rcases h.route_eq hpolicy cur l with hroute | ⟨hroute, -⟩
  · rw [hroute]
    exact reads_leaf hl
  · rw [hroute]
    exact reads_nil

theorem told_ask_of_fail {l : Leaf} (hfail : cur.answer c.registry l = .fail) :
    (ask l).verdict c cur = .fail ∧ (ask l).told c cur = [.leaf .fail l] := by
  have hverdict : (ask l).verdict c cur = (c.route cur l).status c.registry := h.reports.verdict_ask cur l
  rw [hverdict, told, Chain.askTold]
  rcases h.route_eq hpolicy cur l with hroute | ⟨-, hignore⟩
  · rw [hroute, Route.status, Route.told, hfail]
    exact ⟨rfl, rfl⟩
  · rw [hfail] at hignore
    cases hignore

theorem verdict_within_whole (b : Branch) (p : Plan) : (within b p).verdict c cur = p.verdict c cur := by
  have := h.handlerFree
  rw [verdict_within, h.enters?_eq hpolicy]
  rfl

theorem verdict_forEach_whole (container : Member) (e : Expansion) (body : Member → Plan) :
    (forEach container e body).verdict c cur = elementsVerdict c container e body cur := by
  have := h.handlerFree
  rw [verdict_forEach, h.enters?_eq hpolicy]
  rfl

theorem told_within_whole (b : Branch) (p : Plan) :
    (within b p).told c cur = [.frame b.frame (p.told c cur) (p.verdict c cur)] := by
  rw [told, h.branchTold_eq hpolicy]

theorem reads_and {scope : Member} {rules : List Rule} {plans : List Plan}
    (hne : around.contains .not = true → plans ≠ [])
    (hplans : ∀ p ∈ plans, ReadsTrue answer (.and :: around) (p.verdict c cur) (p.told c cur)) :
    ReadsTrue answer around ((within (.group .and scope rules) (connect .and plans)).verdict c cur)
      ((within (.group .and scope rules) (connect .and plans)).told c cur) := by
  have hconj := conjoins_asked (c := c) (fun hin => hne (by simpa using hin)) hplans
  rw [verdict_within_whole h hpolicy, told_within_whole h hpolicy, told, ← flatMap_asked]
  exact reads_both hconj.reads (fun hrep => hconj.source (reported_cons rfl hrep)) (.inl rfl) hconj.passed

theorem reads_or {scope : Member} {rules : List Rule} {plans : List Plan}
    (hne : around.contains .not = true → plans ≠ [])
    (hplans : ∀ p ∈ plans, ReadsTrue answer (.or :: around) (p.verdict c cur) (p.told c cur)) :
    ReadsTrue answer around ((within (.group .or scope rules) (connect .or plans)).verdict c cur)
      ((within (.group .or scope rules) (connect .or plans)).told c cur) := by
  rw [verdict_within_whole h hpolicy, told_within_whole h hpolicy, told, ← flatMap_asked]
  refine reads_either ?_ (exists_asked_reported (by decide) hne) rfl ?_
  · intro i hi
    obtain ⟨p, hp, rfl⟩ := exists_of_mem_asked hi
    exact hplans p hp
  · intro hs i hi hsuccess
    obtain ⟨p, hp, rfl⟩ := exists_of_mem_asked hi
    rw [verdict_connect] at hs
    exact hs (Status.anyOf_of_mem_success (List.mem_map.2 ⟨p, hp, hsuccess⟩))

theorem reads_negation {scope : Member} {rules : List Rule} {p : Plan}
    (hp : ReadsTrue answer (.not :: around) (p.verdict c cur) (p.told c cur)) :
    ReadsTrue answer around ((within (.group .not scope rules) (connect .not [p])).verdict c cur)
      ((within (.group .not scope rules) (connect .not [p])).told c cur) := by
  have hverdict : (connect .not [p]).verdict c cur = (p.verdict c cur).negate := by
    rw [verdict_connect]
    cases hs : p.verdict c cur <;> simp only [List.map_cons, List.map_nil, hs] <;> rfl
  have htold : (connect .not [p]).told c cur = p.told c cur := by
    rw [told, toldBy, toldBy]
    simp
  rw [verdict_within_whole h hpolicy, told_within_whole h hpolicy, hverdict, htold]
  exact reads_not hp

omit hpolicy in
theorem elementsVerdict_of_fail {container : Member} {e : Expansion} {body : Member → Plan}
    {found : List (Path × Object)} {x : Path × Object} (hq : e.quantifier = .all)
    (hfound : cur.found? c.terms container.path e = some found) (hx : x ∈ found)
    (hfail : (body (container.element x.1 e.display?)).verdict c (cur.atElement container x) = .fail) :
    elementsVerdict c container e body cur = .fail := by
  have hmem := List.mem_map_of_mem (f := fun x : Path × Object =>
    (body (container.element x.1 e.display?)).verdict c (cur.atElement container x)) hx
  rw [hfail] at hmem
  rw [elementsVerdict_some h.passes_eq hfound, hq, h.allEmpty, Quantifier.fold_ignore,
    if_neg (List.ne_nil_of_mem hmem)]
  exact Status.allOf_of_mem_fail hmem

theorem reads_forEach {container : Member} {e : Expansion} {body : Member → Plan}
    (hany : around.contains .not = true → e.quantifier = .all)
    (hbody : ∀ found, cur.found? c.terms container.path e = some found → ∀ x ∈ found,
      ∃ items, items.flatMap Prod.snd = (body (container.element x.1 e.display?)).told c (cur.atElement container x) ∧
        Conjoins answer ((Branch.elements e.quantifier container).frame :: around)
          ((body (container.element x.1 e.display?)).verdict c (cur.atElement container x)) items) :
    ReadsTrue answer around ((forEach container e body).verdict c cur) ((forEach container e body).told c cur) := by
  rw [verdict_forEach_whole h hpolicy, told, h.branchTold_eq hpolicy]
  cases hfound : cur.found? c.terms container.path e with
  | none =>
    rw [elementsVerdict, hfound]
    exact reads_frame fun hrep => absurd rfl (reported_ne_ignore hrep)
  | some found =>
    obtain ⟨items, htold, hreads, hsource, hfail⟩ :=
      exists_gathered fun x hx => hbody found hfound x (mem_of_mem_upTo hx)
    have hinner : c.elementsTold container e (fun scope => told c (body scope))
        (fun scope => (body scope).verdict c) cur = items.flatMap Prod.snd := by
      rw [htold, Chain.elementsTold, hfound]
      rfl
    have hkind := Branch.isExplained_elements e.quantifier container
    have hsome : reported around (elementsVerdict c container e body cur) = true →
        ∃ i ∈ items, i.1 = elementsVerdict c container e body cur := by
      intro hrep
      obtain ⟨x, hx, hanswer⟩ := exists_element h hfound (reported_ne_ignore hrep)
      obtain ⟨i, hi, heq⟩ := hsource x hx (by rw [hanswer]; exact reported_cons hkind hrep)
      exact ⟨i, hi, heq.trans hanswer⟩
    rw [hinner]
    cases hq : e.quantifier with
    | all =>
      rw [hq] at hreads
      refine reads_both hreads hsome (.inr rfl) fun hs i hi hifail => hs ?_
      obtain ⟨x, hx, hxfail⟩ := hfail i hi hifail
      exact elementsVerdict_of_fail h hq hfound (mem_of_mem_upTo hx) hxfail
    | any =>
      rw [hq] at hreads
      refine reads_any hreads hsome rfl ?_
      by_contra hin
      rw [hany (by simpa using hin)] at hq
      cases hq

end Plan

/-! ### Rules -/

namespace Rule

mutual

/-- No message stands in place of a text, a negation has one rule, and below a negation no connective
is empty and no element stands for others. -/
def isReadable (inNegation : Bool) : Rule → Bool
  | condition .. | property .. | presence _ => true
  | bind m body => (!inNegation || m.path.all fun k => k.quantifier? != some .any) && isReadable inNegation body
  | group .not rules => rules.length == 1 && areReadable true rules
  | group .and rules | group .or rules => (!inNegation || !rules.isEmpty) && areReadable inNegation rules
  | elements e rules => (!inNegation || (e.quantifier == .all && !rules.isEmpty)) && areReadable inNegation rules
  | explain .. => false

def areReadable (inNegation : Bool) : List Rule → Bool
  | [] => true
  | r :: rs => isReadable inNegation r && areReadable inNegation rs

end

open Outline

variable {c : Chain} {policy : Existence} {o : Object}

theorem reads_along {answer : Leaf → Status} {inNegation : Bool} {body : Member → Plan} (h : c.IsWhole policy)
    (hpolicy : policy ≠ .abort) (ho : o.WellFormed) {path : Path} {st : Standing}
    (hpath : inNegation = true → ∀ k ∈ path, k.quantifier? ≠ some .any)
    (hbody : ∀ {cur : Cursor} {scope : Member} {around : List FrameKind},
      (path.foldl Standing.after st).Follows c.terms.registry o cur scope.path →
        (around.contains .not = true → inNegation = true) →
          ReadsTrue answer around ((body scope).verdict c cur) ((body scope).told c cur))
    {cur : Cursor} {scope : Member} {around : List FrameKind} (hcur : st.Follows c.terms.registry o cur scope.path)
    (haround : around.contains .not = true → inNegation = true) :
    ReadsTrue answer around ((Plan.along body path scope).verdict c cur) ((Plan.along body path scope).told c cur) := by
  induction path generalizing st cur scope around with
  | nil => exact hbody hcur haround
  | cons k path ih =>
    have hrest : inNegation = true → ∀ k ∈ path, k.quantifier? ≠ some .any := fun hin =>
      (List.forall_mem_cons.1 (hpath hin)).2
    by_cases hk : k.isExpansion = true
    · cases k with
      | name | index | property => cases hk
      | expand e =>
        refine Plan.reads_forEach h hpolicy (fun hin => ?_) fun found hfound x hx => ?_
        · have hne := hpath (haround hin) (.expand e) (List.mem_cons_self ..)
          cases hq : e.quantifier with
          | all => rfl
          | any => exact absurd (congrArg some hq) hne
        · have hinside : ((Branch.elements e.quantifier scope).frame :: around).contains .not = true →
              inNegation = true := fun hin => haround (by rwa [contains_not_elements] at hin)
          exact ⟨_, List.append_nil _, (ih hrest hbody (hcur.atElement ho hfound hx) hinside).conjoins⟩
    · rw [Bool.not_eq_true] at hk
      have hextend : ReadsTrue answer around ((Plan.along body path (scope.extend [k])).verdict c cur)
          ((Plan.along body path (scope.extend [k])).told c cur) := ih hrest hbody (hcur.extend hk) haround
      cases k with
      | expand => cases hk
      | name | index | property => exact hextend

mutual

/-- What a rule leaves is read from the object itself. -/
theorem reads_plan (h : c.IsWhole policy) (hpolicy : policy ≠ .abort) (ho : o.WellFormed) :
    ∀ (r : Rule) {inNegation : Bool} {st : Standing} {cur : Cursor} {scope : Member} {around : List FrameKind},
      st.Follows c.terms.registry o cur scope.path → r.asksOwners st = true →
      r.isReadable inNegation = true → (around.contains .not = true → inNegation = true) →
        ReadsTrue (c.terms.answerAt o) around ((r.plan scope).verdict c cur) ((r.plan scope).told c cur)
  | condition op operand, _, _, _, _, _, hcur, _, _, _ =>
    Plan.reads_ask h hpolicy (hcur.answer_compare none op operand)
  | property p op operand, _, _, _, _, _, hcur, _, _, _ =>
    Plan.reads_ask h hpolicy (hcur.answer_compare (some p) op operand)
  | presence expected, _, _, _, _, _, hcur, howner, _, _ => by
    rw [asksOwners, bne_iff_ne] at howner
    exact Plan.reads_ask h hpolicy (hcur.answer_presence howner expected)
  | bind m body, inNegation, st, cur, scope, around, hcur, howner, hr, haround => by
    rw [asksOwners] at howner
    rw [isReadable, Bool.and_eq_true] at hr
    have hpath : inNegation = true → ∀ k ∈ m.path, k.quantifier? ≠ some .any := by
      intro hin k hk
      have hall := hr.1
      rw [hin, Bool.not_true, Bool.false_or, List.all_eq_true] at hall
      exact bne_iff_ne.1 (hall k hk)
    have hscope : st.Follows c.terms.registry o cur (scope.adoptNames m).path := hcur
    refine reads_along h hpolicy ho hpath (fun hcur haround => ?_) hscope haround
    exact reads_plan h hpolicy ho body hcur howner hr.2 haround
  | group .and rules, inNegation, st, cur, scope, around, hcur, howner, hr, haround => by
    rw [asksOwners] at howner
    rw [isReadable, Bool.and_eq_true] at hr
    refine Plan.reads_and h hpolicy (fun hin => ?_) fun p hp => ?_
    · exact plans_ne_nil (by simpa [haround hin] using hr.1) scope
    · exact reads_plans h hpolicy ho rules hcur howner hr.2 (fun hin => haround (by simpa using hin)) p hp
  | group .or rules, inNegation, st, cur, scope, around, hcur, howner, hr, haround => by
    rw [asksOwners] at howner
    rw [isReadable, Bool.and_eq_true] at hr
    refine Plan.reads_or h hpolicy (fun hin => ?_) fun p hp => ?_
    · exact plans_ne_nil (by simpa [haround hin] using hr.1) scope
    · exact reads_plans h hpolicy ho rules hcur howner hr.2 (fun hin => haround (by simpa using hin)) p hp
  | group .not [r], _, st, cur, scope, around, hcur, howner, hr, _ => by
    rw [asksOwners, asksAllOwners, Bool.and_eq_true] at howner
    rw [isReadable, areReadable, Bool.and_eq_true, Bool.and_eq_true] at hr
    exact Plan.reads_negation h hpolicy (reads_plan h hpolicy ho r hcur howner.1 hr.2.1 fun _ => rfl)
  | group .not [], _, _, _, _, _, _, _, hr, _ => by cases hr
  | group .not (_ :: _ :: _), _, _, _, _, _, _, _, hr, _ => by
    rw [isReadable, Bool.and_eq_true] at hr
    cases hr.1
  | elements e rules, inNegation, st, cur, scope, around, hcur, howner, hr, haround => by
    rw [asksOwners] at howner
    rw [isReadable, Bool.and_eq_true] at hr
    refine Plan.reads_forEach h hpolicy (fun hin => ?_) fun found hfound x hx => ?_
    · have hall := hr.1
      rw [haround hin, Bool.not_true, Bool.false_or, Bool.and_eq_true] at hall
      exact eq_of_beq hall.1
    · have hinside : ((Branch.elements e.quantifier scope).frame :: around).contains .not = true →
          inNegation = true := fun hin => haround (by rwa [contains_not_elements] at hin)
      refine ⟨_, Plan.flatMap_asked .and _, Plan.conjoins_asked (fun hin => ?_) fun p hp => ?_⟩
      · have hall := hr.1
        rw [hinside hin, Bool.not_true, Bool.false_or, Bool.and_eq_true, Bool.not_eq_true'] at hall
        exact plans_ne_nil hall.2 _
      · exact reads_plans h hpolicy ho rules (hcur.atElement ho hfound hx) howner hr.2 hinside p hp
  | explain .., _, _, _, _, _, _, _, hr, _ => by cases hr

theorem reads_plans (h : c.IsWhole policy) (hpolicy : policy ≠ .abort) (ho : o.WellFormed) :
    ∀ (rs : List Rule) {inNegation : Bool} {st : Standing} {cur : Cursor} {scope : Member} {around : List FrameKind},
      st.Follows c.terms.registry o cur scope.path → asksAllOwners rs st = true →
      areReadable inNegation rs = true → (around.contains .not = true → inNegation = true) →
        ∀ p ∈ plans rs scope, ReadsTrue (c.terms.answerAt o) around (p.verdict c cur) (p.told c cur)
  | [], _, _, _, _, _, _, _, _, _, _, hp => absurd hp List.not_mem_nil
  | r :: rs, _, _, _, _, _, hcur, howner, hr, haround, p, hp => by
    rw [asksAllOwners, Bool.and_eq_true] at howner
    rw [areReadable, Bool.and_eq_true] at hr
    rcases List.mem_cons.1 hp with rfl | hp
    · exact reads_plan h hpolicy ho r hcur howner.1 hr.1 haround
    · exact reads_plans h hpolicy ho rs hcur howner.2 hr.2 haround p hp

end

/-! ### The question that is denied -/

variable {q : Path} {p : Property} {children : Key} {depth? : Option Nat} {x : Object}

theorem plan_nodesExist (hq : Path.Concrete (q ++ [.property p])) :
    (nodesExist q p children depth?).plan .root =
      .forEach (Member.root.extend (q ++ [.property p])) (.tree .all children depth?) (presence true).plan := by
  have hpath : q ++ [.property p, .expand (.tree .all children depth?)] =
      (q ++ [.property p]) ++ [.expand (.tree .all children depth?)] := by simp
  rw [nodesExist, plan, hpath, Plan.along_append hq]
  rfl

/-- All that the pass tells is that the property does not exist. -/
theorem told_nodesExist (h : c.IsWhole policy) (hpolicy : policy ≠ .abort) (children : Key) (depth? : Option Nat)
    (hx : c.terms.registry.at? o (q ++ [.property p]) = some x) :
    ((nodesExist q p children depth?).plan .root).verdict c (.start o) = .fail ∧
      ((nodesExist q p children depth?).plan .root).told c (.start o) =
        [.frame .all [.leaf .fail (.presence { path := q } (some p) true)] .fail] := by
  set e : Expansion := .tree .all children depth?
  set container : Member := Member.root.extend (q ++ [.property p])
  have hpath : container.path = q ++ [.property p] := List.nil_append _
  have hsees : (Cursor.start o).sees? c.terms.registry container.path = some x := by
    rw [hpath, ← hx]
    rfl
  obtain ⟨found, hfound⟩ : ∃ found, (Cursor.start o).found? c.terms container.path e = some (([], x) :: found) := by
    rw [Cursor.found?, hsees, Option.bind_some, Registry.found?]
    cases (depth?.or c.terms.settings.maxTreeDepth?).getD x.height <;> exact ⟨_, rfl⟩
  -- the first node is the property itself, seen from a cursor that has consumed it
  set node : Member := container.element [] none
  set cur : Cursor := (Cursor.start o).atElement container ([], x)
  have hnode : node.path = q ++ [.property p] := by
    rw [← hpath]
    exact List.append_nil _
  have hsplit : node.splitProperty = ({ path := q }, some p) := by
    rw [Member.splitProperty, hnode, Path.splitProperty_concat]
    rfl
  have hask : (presence true).plan node = .ask (.presence { path := q } (some p) true) := by
    rw [plan, hsplit]
  have hlost : cur.answer c.registry (.presence node.splitProperty.1 node.splitProperty.2 true) = .fail :=
    Chain.answer_presence_lost c.registry hnode rfl
  rw [hsplit] at hlost
  obtain ⟨hfail, htold⟩ := Plan.told_ask_of_fail h hpolicy hlost
  rw [← hask] at hfail htold
  have hverdict : Plan.elementsVerdict c container e (presence true).plan (.start o) = .fail :=
    Plan.elementsVerdict_of_fail h rfl hfound (List.mem_cons_self ..) hfail
  rw [plan_nodesExist (Registry.concrete_of_at? hx)]
  constructor
  · rw [Plan.verdict_forEach_whole h hpolicy, hverdict]
  · rw [Plan.told, h.branchTold_eq hpolicy, hverdict, Chain.elementsTold_of_fail rfl hfound hfail]
    exact congrArg (fun ts => [Outline.frame .all ts .fail]) htold

end Rule

/-! ### Reports -/

/-- What a report of a failing pass says is false of the object, unless existence is asked of the
first node of a tree that begins at a property. Where that is asked of a property that is there, the
pass fails and all that it says is true. -/
theorem Validator.text_reads_false (v : Validator) (o : Object) (ho : o.WellFormed) (hlocale : v.locale = .english)
    (hpolicy : v.terms.settings.existence ≠ .abort) (hempty : v.terms.settings.allEmpty = .ignore) :
    (v.rule.isReadable false = true → v.rule.asksOwners .part = true → (v.validate o).status = .fail →
      ∃ q : Reading, (v.validate o).text = q.text true ∧ q.holds (v.terms.answerAt o) = false ∧
        ∀ l ∈ q.leaves, l ∈ Outline.leavesOf (v.told o .everything) ∧ v.terms.answerAt o l ≠ .ignore) ∧
    ∀ q p children depth?, v.rule = .nodesExist q p children depth? →
      (v.terms.registry.find? o (q ++ [.property p])).isSome = true →
        let l : Leaf := .presence { path := q } (some p) true
        (v.validate o).status = .fail ∧ (v.validate o).text = Locale.english.leafText false l ∧
          Outline.leavesOf (v.told o .everything) = [l] ∧ v.terms.answerAt o l = .success := by
  have hwhole := isWhole_chain hempty
  constructor
  · intro hreadable howner hfail
    rw [validate, status_run] at hfail
    have hstart : Standing.part.Follows (v.chain .everything).terms.registry o (.start o) Member.root.path :=
      ⟨.start v.terms.registry o, .start o⟩
    have hreads : Outline.ReadsTrue (v.terms.answerAt o) [] _ _ :=
      Rule.reads_plan hwhole hpolicy ho v.rule hstart howner hreadable (fun hin => absurd hin (by decide))
    obtain ⟨q, htext, hholds, -, hcovers⟩ := hreads.said (by rw [hfail]; rfl)
    refine ⟨q, ?_, ?_, hcovers⟩
    · rw [validate, run_eq_report, hlocale, Outline.report, told, htext, String.intercalate_singleton]
      rfl
    · rw [hholds, hfail]
      rfl
  · intro q p children depth? hrule hfind l
    have hsome := hfind
    rw [← Registry.isSome_at?] at hfind
    obtain ⟨x, hx⟩ := Option.isSome_iff_exists.1 hfind
    obtain ⟨hfail, htold⟩ := Rule.told_nodesExist hwhole hpolicy children depth? hx
    rw [← hrule] at hfail htold
    refine ⟨?_, ?_, ?_, ?_⟩
    · rw [validate, status_run]
      exact hfail
    · have hparts : Outline.parts .english Outline.isWorded [] [.frame .all [.leaf .fail l] .fail] =
          [Locale.english.leafText false l] := Outline.parts_frame_leaf .all rfl (by decide) l
      rw [validate, run_eq_report, hlocale, Outline.report, told, htold, hparts, String.intercalate_singleton]
    · rw [told, htold]
      rfl
    · rw [Terms.answerAt, Option.map_some, Option.toList_some, hsome]
      rfl

/-- Both prices are too low, and a negation of two rules fails, the second of which is a negation. -/
theorem Validator.text_reads_false_prices :
    let prices : Rule := .bind { path := [.name "prices", .expand (.each .any)] }
      (.condition (.compare .gt) (.value (.int 5)))
    let least : Rule := .bind { path := [.name "least"] }
      (.condition (.compare .ge) (.member { path := [.name "prices", .index 0] }))
    let code : Rule := .bind { path := [.name "code"] } (.condition (.compare .eq) (.value (.int 2)))
    let terms : Terms := { settings := { allEmpty := .ignore } }
    let v : Validator := { rule := .group .or [prices, .group .not [.group .and [least, .group .not [code]]]], terms }
    let w : Validator := { rule := .nodesExist [.name "prices"] .size (.index 0) none, terms }
    let o : Object := .json (.object [("code", .int 3), ("least", .int 3), ("prices", .list [.int 3, .int 4])])
    let l : Leaf := .presence { path := [.name "prices"] } (some .size) true
    (o.WellFormed ∧ v.rule.isReadable false = true ∧ v.rule.asksOwners .part = true ∧ (v.validate o).status = .fail ∧
        (w.terms.registry.find? o [.name "prices", .property .size]).isSome = true) ∧
      (v.validate o).text = "at least one element of prices must be greater than 5 OR NOT (least must be " ++
        "greater than or equal to element #0 of prices AND code must be not equal to 2)" ∧
      (∃ q : Reading, (v.validate o).text = q.text true ∧ q.holds (v.terms.answerAt o) = false ∧
        ∀ l ∈ q.leaves, l ∈ Outline.leavesOf (v.told o .everything) ∧ v.terms.answerAt o l ≠ .ignore) ∧
      (w.validate o).status = .fail ∧ (w.validate o).text = Locale.english.leafText false l ∧
        Outline.leavesOf (w.told o .everything) = [l] ∧ w.terms.answerAt o l = .success := by
  intro prices least code terms v w o l
  have ho : o.WellFormed := by decide
  have hreadable : v.rule.isReadable false = true := by decide
  have howner : v.rule.asksOwners .part = true := by decide
  have hfail : (v.validate o).status = .fail := by decide
  have hfind : (w.terms.registry.find? o [.name "prices", .property .size]).isSome = true := by decide
  have hv := text_reads_false v o ho rfl (by decide) rfl
  have hw := text_reads_false w o ho rfl (by decide) rfl
  exact ⟨⟨ho, hreadable, howner, hfail, hfind⟩, by decide +kernel, hv.1 hreadable howner hfail,
    hw.2 [.name "prices"] .size (.index 0) none rfl hfind⟩

/-- A list has a size, and all that the report says is that its size must exist. -/
theorem Validator.text_denies_size :
    let v : Validator :=
      { rule := .nodesExist [.name "a"] .size (.name "x") none, terms := { settings := { allEmpty := .ignore } } }
    let o : Object := .json (.object [("a", .list [.int 1])])
    let l : Leaf := .presence { path := [.name "a"] } (some .size) true
    v.rule.isReadable false = true ∧ (v.validate o).status = .fail ∧ Outline.leavesOf (v.told o .everything) = [l] ∧
      (v.validate o).text = (Reading.phrase false l).text true ∧
      (Reading.phrase false l).text true = "size of a must exist." ∧
      (Reading.phrase false l).holds (v.terms.answerAt o) = true := by
  intro v o l
  exact ⟨by decide, by decide, rfl, by decide, by decide, by decide⟩

end Conform
