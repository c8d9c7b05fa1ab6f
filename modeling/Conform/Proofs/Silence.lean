import Conform.Proofs.Telling
import Conform.Proofs.Throughout

/-!
# When a report is empty

Only a pass that fails leaves a text, whatever the locale, the policy and the filter. The other way
round the words are needed: where no connective is empty, no message and no wording, and a demand on
every element of an empty container does not apply, an answer that is reported comes from a leaf that
was asked and gave it, or the opposite if a negation stands in between, and that leaf is reported too
(`Rule.speaks_plan`). So in English a pass over the whole object fails exactly if it leaves a text
(`Validator.text_ne_empty_iff_fail`).
-/

namespace Conform

/-! ### Words -/

theorem append_ne_empty_left {s t : String} (h : s ≠ "") : s ++ t ≠ "" := fun heq =>
  h (String.append_eq_empty_iff.1 heq).1

theorem append_ne_empty_right {s t : String} (h : t ≠ "") : s ++ t ≠ "" := fun heq =>
  h (String.append_eq_empty_iff.1 heq).2

theorem intercalate_ne_empty {sep text : String} {texts : List String} (h : text ∈ texts) (hne : text ≠ "") :
    sep.intercalate texts ≠ "" := by
  induction texts with
  | nil => cases h
  | cons t texts ih =>
    cases texts with
    | nil =>
      rw [String.intercalate_singleton, ← List.mem_singleton.1 h]
      exact hne
    | cons u texts =>
      rw [String.intercalate_cons_cons]
      rcases List.mem_cons.1 h with rfl | h
      · exact append_ne_empty_left (append_ne_empty_left hne)
      · exact append_ne_empty_right (ih h)

/-- The operator describes itself against the operand in words, as all of the catalogue do. -/
def Operator.hasWords (operand : Value) : Operator → Bool
  | compare _ | text .. => true
  | own o => (o.describe operand false).1 != "" && (o.describe operand true).1 != ""

theorem Operator.describe_ne_empty {o : Operator} {operand : Value} (h : o.hasWords operand = true) (negate : Bool) :
    o.describe operand negate ≠ "" := by
  have hwhich : ∀ {phrase negated : String}, phrase ≠ "" → negated ≠ "" → ∀ opposite : Bool,
      (if opposite then negated else phrase) ≠ "" := by
    intro phrase negated hphrase hnegated opposite
    cases opposite with
    | true => exact hnegated
    | false => exact hphrase
  cases o with
  | compare c =>
    have hphrase : c.phrase ≠ "" := by cases c <;> decide
    have hnegated : c.negated ≠ "" := by cases c <;> decide
    exact hwhich hphrase hnegated _
  | text r ignoreCase =>
    refine hwhich ?_ ?_ negate
    · cases r <;> cases ignoreCase <;> decide
    · cases r <;> cases ignoreCase <;> decide
  | own o =>
    rw [hasWords, Bool.and_eq_true, bne_iff_ne, bne_iff_ne] at h
    cases negate with
    | true => exact h.2
    | false => exact h.1

namespace Locale

theorem phrase_english (text : String) (context : Grammar) : english.phrase text context = ⟨text, .empty⟩ := rfl

theorem sentence_ne_empty {text : String} {texts : List String} (h : text ∈ texts) (hne : text ≠ "") :
    sentence texts ≠ "" := by
  refine intercalate_ne_empty (List.mem_filter.2 ⟨h, ?_⟩) hne
  rwa [Bool.not_eq_true', ← Bool.not_eq_true, String.isEmpty_iff]

end Locale

/-- The wordings as a flag have words. -/
def Property.hasWords (p : Property) : Bool :=
  p.wording?.all fun w => w.set != "" && w.unset != ""

namespace Leaf

/-- The flag that the leaf is about has words, and so has the operator. -/
def hasWords : Leaf → Bool
  | check _ c => c.property?.all Property.hasWords && c.operator.hasWords c.operand.expected
  | presence .. => true

theorem hasWords_compare (scope : Member) (p? : Option Property) (op : Operator) (operand : Operand) :
    (compare scope p? op operand).hasWords = (p?.all Property.hasWords && op.hasWords operand.expected) := by
  cases operand with
  | value v =>
    rw [compare]
    split <;> rfl
  | member | sample => rfl

theorem flagText_ne_empty {c : Check} {negate : Bool} {text : String} (h : c.property?.all Property.hasWords = true)
    (htext : Locale.english.flagText? c negate = some text) : text ≠ "" := by
  obtain ⟨member, property?, operator, operand⟩ := c
  rw [Locale.flagText?] at htext
  split at htext
  next wording expected hwording hoperand =>
    obtain ⟨p, rfl, hp⟩ := Option.bind_eq_some_iff.1 hwording
    rw [Option.all_some, Property.hasWords, hp, Option.all_some, Bool.and_eq_true, bne_iff_ne, bne_iff_ne] at h
    split at htext
    · cases htext
      refine Locale.sentence_ne_empty (List.mem_cons_of_mem _ (List.mem_singleton_self _)) ?_
      rw [Locale.phrase_english]
      split
      · exact h.2
      · exact h.1
    · cases htext
  · cases htext

theorem text_ne_empty {l : Leaf} (h : l.hasWords = true) (negate : Bool) : Locale.english.leafText negate l ≠ "" := by
  cases l with
  | presence m p? expected =>
    refine Locale.sentence_ne_empty (List.mem_cons_of_mem _ (List.mem_singleton_self _)) ?_
    rw [Locale.phrase_english]
    cases expected != negate <;> decide
  | check subject c =>
    obtain ⟨hproperty, hoperator⟩ := (Bool.and_eq_true ..).mp h
    rw [Locale.leafText, Locale.condition]
    cases hflag : Locale.english.flagText? c negate with
    | some text => exact flagText_ne_empty hproperty hflag
    | none =>
      refine Locale.sentence_ne_empty (List.mem_cons_of_mem _ (List.mem_cons_self ..)) ?_
      rw [Locale.phrase_english]
      exact Operator.describe_ne_empty hoperator negate

end Leaf

/-! ### Forests that say something -/

namespace Outline

/-- In English something is said inside the given rules. -/
def Speaks (around : List FrameKind) (ts : List Outline) : Prop :=
  ∃ text ∈ parts .english isWorded around ts, text ≠ ""

variable {around : List FrameKind} {ts us : List Outline} {s : Status}

theorem speaks_append : Speaks around (ts ++ us) ↔ Speaks around ts ∨ Speaks around us := by
  simp only [Speaks, parts_append, List.mem_append, or_and_right, exists_or]

theorem speaks_flatMap {α : Type} {xs : List α} {f : α → List Outline} :
    Speaks around (xs.flatMap f) ↔ ∃ x ∈ xs, Speaks around (f x) := by
  simp only [Speaks, parts_flatMap, List.mem_flatMap]
  constructor
  · rintro ⟨text, ⟨x, hx, ht⟩, hne⟩
    exact ⟨x, hx, text, ht, hne⟩
  · rintro ⟨x, hx, text, ht, hne⟩
    exact ⟨text, ⟨x, hx, ht⟩, hne⟩

theorem speaks_leaf {l : Leaf} (h : reported around s = true) (hl : l.hasWords = true) :
    Speaks around [.leaf s l] := by
  refine ⟨_, ?_, l.text_ne_empty hl (around.head? == some .not)⟩
  rw [parts_singleton, part?, if_pos h]
  exact List.mem_singleton_self _

theorem compose_of_mem {kind : FrameKind} {outermost inline : Bool} {texts : List String} {text : String}
    (hkind : kind.isExplained = false) (h : text ∈ texts) (hne : text ≠ "") :
    ∃ whole, compose .english kind outermost inline texts = some whole ∧ whole ≠ "" := by
  set kept := if kind = .any then texts.eraseDups else texts with hkept
  have hmem : text ∈ kept := by
    rw [hkept]
    split
    · exact List.mem_eraseDups.2 h
    · exact h
  set joined := (" " ++ Locale.english.word (Reporter.joint kind) ++ " ").intercalate kept with hjoined
  have hjoined : joined ≠ "" := intercalate_ne_empty hmem hne
  set enclosed := if 1 < kept.length && !outermost then "(" ++ joined ++ ")" else joined with henclosed
  have henclosed : enclosed ≠ "" := by
    rw [henclosed]
    split
    · exact append_ne_empty_right (by decide)
    · exact hjoined
  have hcompose : compose .english kind outermost inline texts =
      some (if kind = .not && !inline then Locale.english.word "NOT" ++ " " ++ enclosed else enclosed) := by
    have hempty : kept.isEmpty = false := by
      rw [List.isEmpty_eq_false_iff]
      exact List.ne_nil_of_mem hmem
    cases kind with
    | explained => cases hkind
    | and | or | not | any | all => exact if_neg (by rw [hempty]; exact Bool.false_ne_true)
  refine ⟨_, hcompose, ?_⟩
  split
  · exact append_ne_empty_right henclosed
  · exact henclosed

theorem speaks_frame {kind : FrameKind} {inner : List Outline} (hkind : kind.isExplained = false)
    (h : reported around s = true) (hinner : Speaks (kind :: around) inner) : Speaks around [.frame kind inner s] := by
  obtain ⟨text, htext, hne⟩ := hinner
  obtain ⟨whole, hwhole, hne⟩ := compose_of_mem hkind htext hne
  refine ⟨whole, ?_, hne⟩
  rw [parts_singleton, part?, if_pos h, hwhole]
  exact List.mem_singleton_self _

theorem speaks_explained {message : String} {inner : List Outline} (hmessage : message ≠ "")
    (h : reported around s = true) : Speaks around [.frame (.explained message) inner s] := by
  refine ⟨message, ?_, hmessage⟩
  rw [parts_singleton, part?, if_pos h]
  exact List.mem_singleton_self _

end Outline

/-! ### Answers come from somewhere -/

section Asked
variable {α : Type} {f : α → Status} {xs : List α}

theorem Status.allOf_eq {statuses : List Status} (hne : statuses ≠ []) : allOf statuses =
    if statuses.any (· == fail) then fail else if statuses.any (· == success) then success else ignore := by
  rw [allOf, List.isEmpty_eq_false_iff.2 hne]
  rfl

theorem Status.anyOf_eq {statuses : List Status} (hne : statuses ≠ []) : anyOf statuses =
    if statuses.any (· == success) then success else if statuses.any (· == fail) then fail else ignore := by
  rw [anyOf, List.isEmpty_eq_false_iff.2 hne]
  rfl

/-- Where one answer ends the round and for another it is enough that it has been given, the answer of
the round was given by someone who was asked. -/
theorem Status.exists_asked {stop other answer : Status} (hne : answer ≠ .ignore)
    (h : answer = if (xs.map f).any (· == stop) then stop else if (xs.map f).any (· == other) then other else .ignore) :
    ∃ x ∈ upTo (fun x => f x == stop) xs, f x = answer := by
  by_cases hstop : ∃ x ∈ xs, (f x == stop) = true
  · obtain ⟨x, hx, heq⟩ := exists_mem_upTo hstop
    have hany : (xs.map f).any (· == stop) = true := by
      rw [List.any_map, List.any_eq_true]
      exact hstop
    exact ⟨x, hx, by rw [h, if_pos hany]; exact eq_of_beq heq⟩
  · have hnone : ∀ x ∈ xs, (f x == stop) = false := fun x hx => by
      rw [← Bool.not_eq_true]
      exact fun heq => hstop ⟨x, hx, heq⟩
    have hany : (xs.map f).any (· == stop) = false := by
      rw [List.any_map, List.any_eq_false]
      exact fun x hx => by rw [Function.comp, hnone x hx]; decide
    rw [upTo_eq_self hnone]
    rw [hany, if_neg Bool.false_ne_true] at h
    cases hother : (xs.map f).any (· == other) with
    | false => rw [hother] at h; exact absurd h hne
    | true =>
      obtain ⟨s, hs, heq⟩ := List.any_eq_true.1 hother
      obtain ⟨x, hx, rfl⟩ := List.mem_map.1 hs
      exact ⟨x, hx, by rw [h, hother, if_pos rfl]; exact eq_of_beq heq⟩

theorem Connective.exists_asked {k : Connective} (hne : xs ≠ []) (h : k.fold (xs.map f) ≠ .ignore) :
    ∃ x ∈ upTo (fun x => k.decides (f x)) xs,
      f x = if k = .not then (k.fold (xs.map f)).negate else k.fold (xs.map f) := by
  have hmap : xs.map f ≠ [] := List.map_eq_nil_iff.not.2 hne
  cases k with
  | and => exact Status.exists_asked h (Status.allOf_eq hmap)
  | or => exact Status.exists_asked h (Status.anyOf_eq hmap)
  | not =>
    have hall : Status.allOf (xs.map f) ≠ .ignore := by
      intro hignore
      rw [Connective.fold, hignore] at h
      exact h rfl
    obtain ⟨x, hx, hfx⟩ := Status.exists_asked hall (Status.allOf_eq hmap)
    exact ⟨x, hx, by rw [if_pos rfl, Connective.fold, Status.negate_negate, hfx]⟩

end Asked

theorem Quantifier.fold_ignore (q : Quantifier) (statuses : List Status) :
    q.fold .ignore statuses = if statuses = [] then .ignore else q.connective.fold statuses := by
  cases q <;> cases statuses <;> rfl

theorem Branch.isExplained_elements (q : Quantifier) (container : Member) :
    (elements q container).frame.isExplained = false := by
  cases q <;> rfl

/-! ### Passes over the whole object -/

namespace Chain
variable {c : Chain} {cur : Cursor} {l : Leaf} {b : Branch} {around : List FrameKind}

/-- Nothing stands before the reporter but the guard of a policy, and demands that lead nowhere do
not apply. -/
structure IsWhole (c : Chain) (policy : Existence) : Prop where
  layers : c.layers = (Layer.ofExistence? policy).toList ++ [.reporting]
  allEmpty : c.settings.allEmpty = .ignore

theorem guarded_hasWords {abort : Bool} {q : Cursor × Leaf} (hl : l.hasWords = true)
    (h : c.guarded abort cur l = some q) : q.2.hasWords = true := by
  obtain ⟨cur', l'⟩ := q
  rcases guarded_cases h with hsame | ⟨hcheck, -⟩
  · rw [hsame]
    exact hl
  · cases l' with
    | check => cases hcheck
    | presence => rfl

namespace IsWhole
variable {policy : Existence} (h : c.IsWhole policy)
include h

theorem reports : c.Reports (Layer.ofExistence? policy).toList where
  layers := h.layers
  quiet := by cases policy <;> simp [Layer.ofExistence?, Layer.isQuiet]

theorem handlerFree : c.HandlerFree :=
  h.reports.handlerFree

theorem passes_eq (m : Member) (s : Status) : c.passes m s = s.isSuccess := by
  rw [passes, h.layers]
  cases policy <;> rfl

/-- A leaf does not apply, or it is asked or a question in its place. -/
theorem route_cases (hl : l.hasWords = true) (cur : Cursor) :
    c.route cur l = .settled .ignore ∨ ∃ cur' l', c.route cur l = .asked cur' l' ∧ l'.hasWords = true := by
  have hguard : ∀ abort, c.layers = [.guard abort, .reporting] →
      c.route cur l = .settled .ignore ∨ ∃ cur' l', c.route cur l = .asked cur' l' ∧ l'.hasWords = true := by
    intro abort hlayers
    rw [route, hlayers, routeThrough]
    cases hq : c.guarded abort cur l with
    | none => exact .inl rfl
    | some q => exact .inr ⟨q.1, q.2, rfl, guarded_hasWords hl hq⟩
  cases policy with
  | optimistic => exact .inr ⟨cur, l, by rw [route, h.layers]; rfl, hl⟩
  | safe => exact hguard false h.layers
  | abort => exact hguard true h.layers

theorem speaks_ask (hl : l.hasWords = true)
    (hrep : Outline.reported around (Pass.verdict (c.ask cur l)) = true) : Outline.Speaks around (c.askTold cur l) := by
  rw [h.reports.verdict_ask] at hrep
  rw [askTold]
  rcases h.route_cases hl cur with hroute | ⟨cur', l', hroute, hl'⟩
  · rw [hroute] at hrep
    exact absurd rfl (Outline.reported_ne_ignore hrep)
  · rw [hroute] at hrep ⊢
    exact Outline.speaks_leaf hrep hl'

/-- Where a layer answers for a branch, it says why. -/
theorem speaks_prologue (hclosed : c.enters? cur b = none) (hrep : Outline.reported around .fail = true) :
    Outline.Speaks around (c.prologue cur b) := by
  have := h.handlerFree
  obtain ⟨scope, rules, rfl⟩ := group_not_of_enters? hclosed
  have hmissing : ∀ {q? : Option (Cursor × Leaf)}, (∀ q ∈ q?, q.2.hasWords = true) →
      Pass.verdict (c.askIfAny q?) = .fail → Outline.Speaks around (c.askIfAnyTold q?) := by
    rintro (_ | q) hwords hfail
    · cases hfail
    · exact h.speaks_ask (hwords q rfl) (hfail ▸ hrep)
  have hmember : ∀ members, ∀ q ∈ c.missingMember? cur members, q.2.hasWords = true := by
    intro members q hq
    obtain ⟨m, -, rfl⟩ := Option.map_eq_some_iff.1 hq
    rfl
  have hoperand : ∀ operands, ∀ q ∈ c.missingOperand? cur operands, q.2.hasWords = true := by
    intro operands q hq
    obtain ⟨m, -, rfl⟩ := Option.map_eq_some_iff.1 hq
    rfl
  have habort : c.layers = [.guard true, .reporting] := by
    cases policy with
    | abort => exact h.layers
    | optimistic | safe => rw [enters?, h.layers] at hclosed; cases hclosed
  have hfail : Pass.verdict (c.precheck cur scope rules) = .fail := by
    rw [enters?, habort, entersThrough] at hclosed
    split at hclosed
    next hfail => exact eq_of_beq hfail
    · cases hclosed
  rw [prologue, habort, prologueThrough, precheckTold, Outline.speaks_append, Outline.speaks_append]
  refine .inl ?_
  rw [verdict_precheck] at hfail
  split at hfail
  next hthere => rw [if_pos hthere]; exact .inr (hmissing (hoperand _) hfail)
  · exact .inl (hmissing (hmember _) hfail)

theorem speaks_branch {told : Cursor → List Outline} {answer : Cursor → Status}
    (hrep : Outline.reported around (((c.enters? cur b).map answer).getD .fail) = true)
    (hinside : ∀ entry, Outline.reported around (answer entry) = true →
      Outline.Speaks around [.frame b.frame (told entry) (answer entry)]) :
    Outline.Speaks around (c.branchTold cur b told answer) := by
  rw [branchTold, Outline.speaks_append]
  cases hentry : c.enters? cur b with
  | none =>
    rw [hentry] at hrep
    exact .inl (h.speaks_prologue hentry hrep)
  | some entry =>
    rw [hentry] at hrep
    exact .inr (hinside entry hrep)

end IsWhole

end Chain

namespace Plan
variable {c : Chain} {policy : Existence}

/-- Whatever the plan answers, where that is reported there are words for it. -/
def Speaks (c : Chain) (p : Plan) : Prop :=
  ∀ (cur : Cursor) (around : List FrameKind), Outline.reported around (p.verdict c cur) = true →
    Outline.Speaks around (p.told c cur)

theorem exists_asked {k : Connective} {plans : List Plan} {cur : Cursor} (hne : plans ≠ [])
    (h : (connect k plans).verdict c cur ≠ .ignore) :
    ∃ p ∈ upTo (fun p => k.decides (p.verdict c cur)) plans, p.verdict c cur =
      if k = .not then ((connect k plans).verdict c cur).negate else (connect k plans).verdict c cur := by
  rw [verdict_connect] at h ⊢
  exact Connective.exists_asked hne h

theorem speaks_together {plans : List Plan} (hne : plans ≠ []) (hplans : ∀ p ∈ plans, p.Speaks c) :
    (connect .and plans).Speaks c := by
  intro cur around hrep
  rw [told, toldBy_eq, Outline.speaks_flatMap]
  obtain ⟨p, hp, hanswer⟩ := exists_asked hne (Outline.reported_ne_ignore hrep)
  exact ⟨p, hp, hplans p (mem_of_mem_upTo hp) cur around (by rwa [hanswer])⟩

theorem speaks_group (h : c.IsWhole policy) {k : Connective} {scope : Member} {rules : List Rule} {plans : List Plan}
    (hne : plans ≠ []) (hplans : ∀ p ∈ plans, p.Speaks c) :
    (within (.group k scope rules) (connect k plans)).Speaks c := by
  intro cur around hrep
  have := h.handlerFree
  rw [verdict_within] at hrep
  rw [told]
  refine h.speaks_branch hrep fun entry hrep => ?_
  refine Outline.speaks_frame (by cases k <;> rfl) hrep ?_
  rw [told, toldBy_eq, Outline.speaks_flatMap]
  obtain ⟨p, hp, hanswer⟩ := exists_asked hne (Outline.reported_ne_ignore hrep)
  refine ⟨p, hp, hplans p (mem_of_mem_upTo hp) entry _ ?_⟩
  rw [hanswer]
  cases k with
  | and | or => exact Outline.reported_cons rfl hrep
  | not =>
    refine Outline.reported_not hrep fun hignore => Outline.reported_ne_ignore hrep ?_
    rw [if_pos rfl] at hignore
    rw [← Status.negate_negate (verdict ..), hignore]
    rfl

theorem exists_element (h : c.IsWhole policy) {container : Member} {e : Expansion} {body : Member → Plan} {cur : Cursor}
    {found : List (Path × Object)} (hfound : cur.found? c.terms container.path e = some found)
    (hne : elementsVerdict c container e body cur ≠ .ignore) :
    ∃ x ∈ upTo (fun x => c.ends e.quantifier (container.element x.1 e.display?)
        ((body (container.element x.1 e.display?)).verdict c (cur.atElement container x))) found,
      (body (container.element x.1 e.display?)).verdict c (cur.atElement container x) =
        elementsVerdict c container e body cur := by
  have hends : ∀ scope, c.ends e.quantifier scope = e.quantifier.connective.decides :=
    fun scope => funext fun s => Chain.ends_eq h.passes_eq scope s
  rw [elementsVerdict_some h.passes_eq hfound, h.allEmpty, Quantifier.fold_ignore] at hne ⊢
  have hfound : found ≠ [] := by
    rintro rfl
    exact hne rfl
  rw [if_neg (by rwa [List.map_eq_nil_iff])] at hne ⊢
  obtain ⟨x, hx, hanswer⟩ := Connective.exists_asked hfound hne
  rw [if_neg e.quantifier.connective_ne_not] at hanswer
  simp only [hends]
  exact ⟨x, hx, hanswer⟩

theorem speaks_forEach (h : c.IsWhole policy) {container : Member} {e : Expansion} {body : Member → Plan}
    (hbody : ∀ scope, (body scope).Speaks c) : (forEach container e body).Speaks c := by
  intro cur around hrep
  have := h.handlerFree
  rw [verdict_forEach] at hrep
  rw [told]
  refine h.speaks_branch hrep fun entry hrep => ?_
  have hkind := Branch.isExplained_elements e.quantifier container
  refine Outline.speaks_frame hkind hrep ?_
  have hne := Outline.reported_ne_ignore hrep
  rw [Chain.elementsTold]
  cases hfound : entry.found? c.terms container.path e with
  | none =>
    rw [elementsVerdict, hfound] at hne
    exact absurd rfl hne
  | some found =>
    rw [Option.getD_some, Outline.speaks_flatMap]
    obtain ⟨x, hx, hanswer⟩ := exists_element h hfound hne
    refine ⟨x, hx, hbody _ _ _ ?_⟩
    rw [hanswer]
    exact Outline.reported_cons hkind hrep

theorem speaks_explained (h : c.IsWhole policy) {scope : Member} {message : String} {body : Plan}
    (hmessage : message ≠ "") : (within (.explained scope message) body).Speaks c := by
  intro cur around hrep
  have := h.handlerFree
  rw [verdict_within] at hrep
  rw [told]
  exact h.speaks_branch hrep fun entry hrep => Outline.speaks_explained hmessage hrep

end Plan

namespace Rule

/-- The rule itself has something to say: it combines at least one rule, and its message, its operator and
its flag have words. -/
def hasWords : Rule → Bool
  | condition op operand => op.hasWords operand.expected
  | property p op operand => p.hasWords && op.hasWords operand.expected
  | group _ rules | elements _ rules => !rules.isEmpty
  | explain message _ => message != ""
  | presence _ | bind .. => true

theorem plans_ne_nil {rules : List Rule} (h : rules.isEmpty = false) (scope : Member) : plans rules scope ≠ [] := by
  cases rules with
  | nil => cases h
  | cons => exact List.cons_ne_nil _ _

theorem speaks_carries {c : Chain} {policy : Existence} (h : c.IsWhole policy) : Carries hasWords (Plan.Speaks c) where
  condition hop _ := fun _ _ hrep => h.speaks_ask ((Leaf.hasWords_compare ..).trans hop) hrep
  property hp _ := fun _ _ hrep => h.speaks_ask ((Leaf.hasWords_compare ..).trans hp) hrep
  presence _ _ _ := fun _ _ hrep => h.speaks_ask rfl hrep
  bind _ _ _ _ hinner _ := Plan.speaks_forEach h hinner
  group hrules scope hplans := Plan.speaks_group h (plans_ne_nil ((Bool.not_eq_true' _).mp hrules) scope) hplans
  elements hrules hplans _ := Plan.speaks_forEach h fun scope =>
    Plan.speaks_together (plans_ne_nil ((Bool.not_eq_true' _).mp hrules) scope) (hplans scope)
  explain hmessage _ _ := Plan.speaks_explained h (bne_iff_ne.1 hmessage)

theorem speaks_plan {c : Chain} {policy : Existence} (h : c.IsWhole policy) (r : Rule) (scope : Member)
    (hr : r.everywhere hasWords = true) : (r.plan scope).Speaks c :=
  carried_plan (speaks_carries h) r scope hr

/-- No rule is a connective without a branch around it. -/
theorem plan_ne_connect : ∀ (r : Rule) (scope : Member) (k : Connective) (plans : List Plan),
    r.plan scope ≠ .connect k plans
  | condition .., _, _, _ | property .., _, _, _ | presence _, _, _, _ => nofun
  | group .., _, _, _ | elements .., _, _, _ | explain .., _, _, _ => nofun
  | bind m body, scope, k, plans => by
    rw [plan]
    generalize scope.adoptNames m = scope
    refine Plan.along_ind (motive := fun body => ∀ scope, body scope ≠ .connect k plans) ?_ ?_ ?_ scope
    · exact fun scope => plan_ne_connect body scope k plans
    · exact fun e _ body _ scope => nofun
    · exact fun n _ body hbody scope => hbody (scope.extend [n])

end Rule

/-! ### What is said outside of all rules -/

namespace Outline

/-- The answer of the leaf or the rule. -/
def answer : Outline → Status
  | leaf s _ | frame _ _ s => s

theorem exists_fail_of_parts {l : Locale} {inline : Outline → Bool} {ts : List Outline}
    (h : parts l inline [] ts ≠ []) : ∃ t ∈ ts, t.answer = .fail := by
  induction ts with
  | nil => exact absurd rfl h
  | cons t ts ih =>
    by_cases ht : t.answer = .fail
    · exact ⟨t, List.mem_cons_self .., ht⟩
    · have hrep : reported [] t.answer = false := by
        rw [reported_nil, Status.isFail, beq_eq_false_iff_ne]
        exact ht
      have hnone : part? l inline [] t = none := by
        cases t <;> exact if_neg (Bool.not_eq_true _ ▸ hrep)
      rw [parts, hnone] at h
      obtain ⟨u, hu, hfail⟩ := ih h
      exact ⟨u, List.mem_cons_of_mem _ hu, hfail⟩

end Outline

namespace Chain
variable {c : Chain} {front layers : List Layer} {cur : Cursor} {b : Branch} {t : Outline}

namespace Reports
variable (h : c.Reports front)
include h

theorem answer_of_asked {l : Leaf} (ht : t ∈ c.askTold cur l) : t.answer = Pass.verdict (c.ask cur l) := by
  rw [h.verdict_ask]
  rw [askTold] at ht
  cases hroute : c.route cur l with
  | settled s => rw [hroute] at ht; cases ht
  | asked cur' l' =>
    rw [hroute] at ht
    rw [List.mem_singleton.1 ht]
    rfl

theorem answer_of_askedIfAny {q? : Option (Cursor × Leaf)} (ht : t ∈ c.askIfAnyTold q?) :
    t.answer = Pass.verdict (c.askIfAny q?) := by
  cases q? with
  | none => cases ht
  | some q => exact h.answer_of_asked ht

theorem precheck_of_fail {scope : Member} {rules : List Rule} (ht : t ∈ c.precheckTold cur scope rules)
    (hfail : t.answer = .fail) : Pass.verdict (c.precheck cur scope rules) = .fail := by
  rw [verdict_precheck]
  rcases List.mem_append.1 ht with ht | ht
  · have hmember := (h.answer_of_askedIfAny ht).symm.trans hfail
    rw [hmember]
    rfl
  · split at ht
    next hthere =>
      rw [if_pos hthere]
      exact (h.answer_of_askedIfAny ht).symm.trans hfail
    · cases ht

theorem closed_of_fail (ht : t ∈ c.prologueThrough layers cur b) (hfail : t.answer = .fail) :
    c.entersThrough layers cur b = none := by
  induction layers generalizing cur with
  | nil => cases ht
  | cons layer rest ih =>
    cases layer with
    | recorder | handler | single | reporting => exact ih ht
    | candidate cand => cases b <;> exact ih ht
    | guard abort =>
      rcases abort with _ | _
      · exact ih ht
      · rcases b with ⟨k, scope, rules⟩ | _ | _
        · cases k with
          | and | or => exact ih ht
          | not =>
            rw [entersThrough]
            rcases List.mem_append.1 ht with ht | ht
            · rw [h.precheck_of_fail ht hfail]
              rfl
            · split at ht
              · cases ht
              next hthere => rw [if_neg hthere, ih ht]
        · exact ih ht
        · exact ih ht

theorem fail_of_branch {told : Cursor → List Outline} {answer : Cursor → Status}
    (ht : t ∈ c.branchTold cur b told answer) (hfail : t.answer = .fail) :
    ((c.enters? cur b).map answer).getD .fail = .fail := by
  rcases List.mem_append.1 ht with ht | ht
  · rw [enters?, h.closed_of_fail ht hfail]
    rfl
  · cases hentry : c.enters? cur b with
    | none => rfl
    | some entry =>
      rw [hentry] at ht
      rw [List.mem_singleton.1 ht] at hfail
      exact hfail

end Reports

end Chain

/-- A plan fails where something has failed that it tells outside of all rules. -/
theorem Plan.fail_of_told {c : Chain} {front : List Layer} (h : c.Reports front) {p : Plan}
    (hp : ∀ k plans, p ≠ .connect k plans) {cur : Cursor} {t : Outline} (ht : t ∈ p.told c cur)
    (hfail : t.answer = .fail) : p.verdict c cur = .fail := by
  have := h.handlerFree
  cases p with
  | ask l => exact (h.answer_of_asked ht).symm.trans hfail
  | connect k plans => exact absurd rfl (hp k plans)
  | within b body =>
    rw [verdict_within]
    exact h.fail_of_branch ht hfail
  | forEach container e body =>
    rw [verdict_forEach]
    exact h.fail_of_branch ht hfail

/-! ### Reports -/

theorem Validator.isWhole_chain {v : Validator} (hempty : v.terms.settings.allEmpty = .ignore) :
    (v.chain .everything).IsWhole v.terms.settings.existence :=
  ⟨by rw [layers_chain]; rfl, hempty⟩

/-- A pass that leaves a text has failed; and in English, where all rules have something to say and
a demand on the elements of an empty container does not apply, a pass over the whole object that
fails leaves a text. -/
theorem Validator.text_ne_empty_iff_fail (v : Validator) :
    (∀ o f, (v.run o f).text ≠ "" → (v.run o f).status = .fail) ∧
    (v.locale = .english → v.terms.settings.allEmpty = .ignore → v.rule.everywhere Rule.hasWords = true →
      ∀ o, (v.validate o).status = .fail ↔ (v.validate o).text ≠ "") := by
  have hfails : ∀ o f, (v.run o f).text ≠ "" → (v.run o f).status = .fail := by
    intro o f
    rw [run_eq_report]
    intro htext
    have hparts : Outline.parts v.locale Outline.isWorded [] (v.told o f) ≠ [] := by
      intro hnone
      rw [Outline.report, hnone] at htext
      exact htext rfl
    obtain ⟨t, ht, hfail⟩ := Outline.exists_fail_of_parts hparts
    exact Plan.fail_of_told (v.reports_chain f) (v.rule.plan_ne_connect .root) ht hfail
  refine ⟨hfails, fun hlocale hempty hwords o => ⟨fun hfail => ?_, hfails o .everything⟩⟩
  have hspeaks : Outline.Speaks [] (v.told o .everything) := by
    refine Rule.speaks_plan (isWhole_chain hempty) v.rule .root hwords (.start o) [] ?_
    rw [validate, status_run] at hfail
    rw [hfail]
    rfl
  obtain ⟨text, htext, hne⟩ := hspeaks
  rw [validate, run_eq_report, hlocale]
  exact intercalate_ne_empty htext hne

/-- No price is to be zero and not all of a family are to be young, each under a policy by which a
missing member fails. -/
theorem Validator.text_ne_empty_iff_fail_ages :
    let prices : Rule := .bind { path := [.name "prices", .expand (.each .any)] }
      (.condition (.compare .eq) (.value (.int 0)))
    let ages : Rule := .bind { path := [.expand (.tree .all (.name "kids") none)] }
      (.explain "all are young" (.bind { path := [.name "age"] } (.condition (.compare .lt) (.value (.int 10)))))
    let v : Validator :=
      { rule := .group .not [.group .or [prices, ages]]
        terms := { settings := { existence := .abort, allEmpty := .ignore } } }
    let o : Object := .json (.object [("age", .int 3), ("prices", .list [.int 3])])
    let f : Filter := .candidate { path := [.name "prices"] } (.json (.list [.int 0])) false
    ((v.run o f).text ≠ "" ∧ v.locale = .english ∧ v.terms.settings.allEmpty = .ignore ∧
        v.rule.everywhere Rule.hasWords = true) ∧
      (v.run o f).status = .fail ∧ ((v.validate o).status = .fail ↔ (v.validate o).text ≠ "") := by
  intro prices ages v o f
  have htext : (v.run o f).text ≠ "" := by decide
  have hwords : v.rule.everywhere Rule.hasWords = true := by decide
  have h := text_ne_empty_iff_fail v
  exact ⟨⟨htext, rfl, rfl, hwords⟩, h.1 o f htext, h.2 rfl rfl hwords o⟩

end Conform
