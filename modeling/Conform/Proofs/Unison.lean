import Conform.Proofs.Selection
import Conform.Proofs.Silence

/-!
# Failures that read the same

Demands on the elements of containers add no words of their own. Where all leaves that fail inside rules
that fail (`Outline.failingOf`) read the same, a pass that asks at the end of a path says that once, however
many elements have failed on the way (`Plan.says_along`); such a pass fails only because of such a leaf
(`Plan.failingOf_along`), and its leaves are asked of places that the path leads to key by key
(`Plan.leaves_along`).
-/

namespace Conform

/-! ### What fails inside rules that fail -/

namespace Outline

mutual

/-- The leaves that fail inside rules that fail. -/
def failing : Outline → List Leaf
  | leaf s l => if s.isFail then [l] else []
  | frame _ inner s => if s.isFail then failingOf inner else []

def failingOf : List Outline → List Leaf
  | [] => []
  | t :: ts => failing t ++ failingOf ts

end

variable {text : String} {around : List FrameKind} {ts us : List Outline} {s : Status}

theorem failingOf_append (ts us : List Outline) : failingOf (ts ++ us) = failingOf ts ++ failingOf us := by
  induction ts with
  | nil => rfl
  | cons t ts ih => rw [List.cons_append, failingOf, failingOf, ih, List.append_assoc]

theorem failingOf_singleton (t : Outline) : failingOf [t] = t.failing := by
  rw [failingOf, failingOf, List.append_nil]

theorem failingOf_eq_nil (h : ∀ t ∈ ts, t.answer ≠ .fail) : failingOf ts = [] := by
  induction ts with
  | nil => rfl
  | cons t ts ih =>
    obtain ⟨ht, hts⟩ := List.forall_mem_cons.1 h
    have hnone : t.failing = [] := by
      cases t with
      | leaf s | frame _ _ s =>
        have hs : s.isFail = false := beq_eq_false_iff_ne.2 ht
        rw [failing, hs]
        rfl
    rw [failingOf, hnone, ih hts]
    rfl

theorem failingOf_flatMap_eq_nil {α : Type} {f : α → List Outline} {xs : List α} :
    failingOf (xs.flatMap f) = [] ↔ ∀ x ∈ xs, failingOf (f x) = [] := by
  induction xs with
  | nil => exact ⟨fun _ => nofun, fun _ => rfl⟩
  | cons x xs ih => rw [List.flatMap_cons, failingOf_append, List.append_eq_nil_iff, ih, List.forall_mem_cons]

mutual

theorem mem_leaves_of_mem_failing : ∀ {t : Outline} {l : Leaf}, l ∈ t.failing → l ∈ t.leaves
  | leaf s _, _, h => by
    rw [failing] at h
    split at h
    · exact h
    · cases h
  | frame _ inner s, _, h => by
    rw [failing] at h
    split at h
    · exact mem_leavesOf_of_mem_failingOf h
    · cases h

theorem mem_leavesOf_of_mem_failingOf : ∀ {ts : List Outline} {l : Leaf}, l ∈ failingOf ts → l ∈ leavesOf ts
  | [], _, h => h
  | t :: ts, _, h => by
    rcases List.mem_append.1 h with h | h
    · exact List.mem_append_left _ (mem_leaves_of_mem_failing h)
    · exact List.mem_append_right _ (mem_leavesOf_of_mem_failingOf h)

end

end Outline

/-! ### Demands add no words -/

def FrameKind.isDemand : FrameKind → Bool
  | any | all => true
  | and | or | not | explained _ => false

theorem Branch.isDemand_elements (q : Quantifier) (container : Member) :
    (elements q container).frame.isDemand = true := by
  cases q <;> rfl

namespace Outline
variable {text : String} {around : List FrameKind} {ts us : List Outline} {s : Status}

/-- The text, if anything fails. -/
def said? (text : String) (ts : List Outline) : Option String :=
  if failingOf ts = [] then none else some text

/-- If all that fails reads the same, it is said once. -/
def Says (text : String) (around : List FrameKind) (ts : List Outline) : Prop :=
  (∀ l ∈ failingOf ts, Locale.english.leafText false l = text) →
    parts .english isWorded around ts = (said? text ts).toList

/-- The texts that a rule joins, of those inside. -/
def kept (kind : FrameKind) (texts : List String) : List String :=
  if kind = .any then texts.eraseDups else texts

theorem compose_demand {kind : FrameKind} {outermost inline : Bool} {texts : List String} {text? : Option String}
    (hkind : kind.isDemand = true) (h : kept kind texts = text?.toList) :
    compose .english kind outermost inline texts = text? := by
  cases kind with
  | and | or | not | explained => cases hkind
  | any | all => cases text? <;> simp_all [compose, kept]

section Demands
variable (haround : ∀ kind ∈ around, kind.isDemand = true)
include haround

theorem ne_of_demands {kind : FrameKind} (h : kind ∈ around) : kind ≠ .not ∧ kind.isExplained = false := by
  have hdemand := haround kind h
  cases kind with
  | any | all => exact ⟨nofun, rfl⟩
  | and | or | not | explained => cases hdemand

theorem reported_demands (s : Status) : reported around s = s.isFail := by
  have hplain : around.any FrameKind.isExplained = false :=
    List.any_eq_false.2 fun kind h => Bool.eq_false_iff.1 (ne_of_demands haround h).2
  have hnot : around.contains .not = false := by
    rw [← Bool.not_eq_true, List.contains_iff_mem]
    exact fun h => (ne_of_demands haround h).1 rfl
  rw [reported, hplain, hnot, Bool.false_and, Bool.or_false]
  rfl

theorem says_leaf (s : Status) (l : Leaf) : Says text around [.leaf s l] := by
  have hhead : (around.head? == some .not) = false := by
    rw [beq_eq_false_iff_ne]
    exact fun h => (ne_of_demands haround (List.mem_of_head? h)).1 rfl
  intro htext
  rw [failingOf_singleton, failing] at htext
  rw [parts_singleton, part?, reported_demands haround, hhead, said?, failingOf_singleton, failing]
  cases hs : s.isFail with
  | false => rfl
  | true =>
    rw [hs] at htext
    rw [htext l (List.mem_singleton_self l)]
    rfl

/-- A demand passes on what its elements leave. -/
theorem says_frame {kind : FrameKind} {inner : List Outline} (hkind : kind.isDemand = true)
    (hkept : (∀ l ∈ failingOf inner, Locale.english.leafText false l = text) →
      kept kind (parts .english isWorded (kind :: around) inner) = (said? text inner).toList) :
    Says text around [.frame kind inner s] := by
  intro htext
  rw [failingOf_singleton, failing] at htext
  rw [parts_singleton, part?, reported_demands haround, said?, failingOf_singleton, failing]
  cases hs : s.isFail with
  | false => rfl
  | true =>
    rw [hs] at htext
    rw [if_pos rfl, if_pos rfl, compose_demand hkind (hkept htext)]
    rfl

end Demands

theorem says_append (hsilent : failingOf ts = []) (hts : Says text around ts) (hus : Says text around us) :
    Says text around (ts ++ us) := by
  intro htext
  have hsaid : said? text ts = none := if_pos hsilent
  rw [failingOf_append, hsilent, List.nil_append] at htext
  have hnone : parts .english isWorded around ts = [] := by
    rw [hts (by rw [hsilent]; exact fun _ h => absurd h List.not_mem_nil), hsaid]
    rfl
  rw [parts_append, hnone, hus htext, said?, said?, failingOf_append, hsilent]
  rfl

section Elements
variable {α : Type} {f : α → List Outline} {stop : α → Bool} {xs : List α}

/-- Where the first element that fails ends the round, no other fails. -/
theorem says_upTo (hstop : ∀ x ∈ xs, stop x = false → failingOf (f x) = [])
    (h : ∀ x ∈ xs, Says text around (f x)) : Says text around ((upTo stop xs).flatMap f) := by
  induction xs with
  | nil => exact fun _ => rfl
  | cons x xs ih =>
    obtain ⟨hx, hxs⟩ := List.forall_mem_cons.1 h
    obtain ⟨hstopx, hstopxs⟩ := List.forall_mem_cons.1 hstop
    rw [upTo, List.flatMap_cons]
    cases hend : stop x with
    | true =>
      rw [if_pos rfl, List.flatMap_nil, List.append_nil]
      exact hx
    | false => exact says_append (hstopx hend) hx (ih hstopxs hxs)

/-- Elements that fail for the same reason say the same. -/
theorem exists_copies (h : ∀ x ∈ xs, Says text around (f x))
    (htext : ∀ l ∈ failingOf (xs.flatMap f), Locale.english.leafText false l = text) :
    ∃ n, parts .english isWorded around (xs.flatMap f) = List.replicate n text ∧
      (n = 0 ↔ failingOf (xs.flatMap f) = []) := by
  induction xs with
  | nil => exact ⟨0, rfl, fun _ => rfl, fun _ => rfl⟩
  | cons x xs ih =>
    obtain ⟨hx, hxs⟩ := List.forall_mem_cons.1 h
    rw [List.flatMap_cons, failingOf_append] at htext ⊢
    obtain ⟨htextx, htextxs⟩ := List.forall_mem_append.1 htext
    obtain ⟨n, hparts, hn⟩ := ih hxs htextxs
    rw [parts_append, hx htextx, hparts, said?]
    by_cases hnone : failingOf (f x) = []
    · exact ⟨n, by rw [if_pos hnone]; rfl, by rw [hn, hnone, List.nil_append]⟩
    · exact ⟨n + 1, by rw [if_neg hnone]; rfl, by simp [hnone]⟩

theorem eraseDups_parts_flatMap (h : ∀ x ∈ xs, Says text around (f x))
    (htext : ∀ l ∈ failingOf (xs.flatMap f), Locale.english.leafText false l = text) :
    (parts .english isWorded around (xs.flatMap f)).eraseDups = (said? text (xs.flatMap f)).toList := by
  obtain ⟨n, hparts, hn⟩ := exists_copies h htext
  rw [hparts, said?]
  cases n with
  | zero => rw [if_pos (hn.1 rfl)]; rfl
  | succ n =>
    rw [if_neg fun hnone => Nat.succ_ne_zero n (hn.2 hnone), List.replicate_succ, List.eraseDups_cons]
    simp

end Elements

end Outline

/-! ### What becomes of a leaf -/

/-- A leaf is settled by a layer, but does not fail, or it is asked; or a question of presence is asked in
its place, if some layer demands that. -/
inductive Route.For (l : Leaf) (demanding : Prop) : Route → Prop
  | settled {s : Status} (h : s ≠ .fail) : Route.For l demanding (.settled s)
  | asked (cur : Cursor) : Route.For l demanding (.asked cur l)
  | instead (cur : Cursor) {l' : Leaf} (hcheck : l'.isCheck = false) (h : demanding) :
    Route.For l demanding (.asked cur l')

theorem Route.For.of_question {r : Route} {l q : Leaf} {demanding : Prop} (h : r.For q demanding)
    (hcheck : q.isCheck = false) (hdemanding : demanding) : r.For l demanding := by
  cases h with
  | settled h => exact .settled h
  | asked cur => exact .instead cur hcheck hdemanding
  | instead cur hcheck' => exact .instead cur hcheck' hdemanding

namespace Chain
variable {c : Chain} {layers : List Layer} {demanding : Prop}

/-- Without layers of the caller's own, only a guard by which a missing member fails asks for something else. -/
theorem routeThrough_for (hown : ∀ layer ∈ layers, layer.role ≠ .own)
    (hdemanding : Layer.guard true ∈ layers → demanding) (cur : Cursor) (l : Leaf) :
    (c.routeThrough layers cur l).For l demanding := by
  induction layers generalizing cur l with
  | nil => exact .asked cur
  | cons layer rest ih =>
    obtain ⟨hlayer, hrest⟩ := List.forall_mem_cons.1 hown
    have hbehind : ∀ cur l, (c.routeThrough rest cur l).For l demanding :=
      ih hrest fun h => hdemanding (List.mem_cons_of_mem _ h)
    cases layer with
    | recorder | handler => exact absurd rfl hlayer
    | reporting => exact hbehind cur l
    | single pattern =>
      rw [routeThrough]
      split
      · exact hbehind cur l
      · exact .settled (by decide)
    | candidate cand =>
      rw [routeThrough]
      cases cand.redirect? cur l with
      | none => exact .settled (by decide)
      | some cur => exact hbehind cur l
    | guard abort =>
      rw [routeThrough]
      cases hguarded : c.guarded abort cur l with
      | none => exact .settled (by decide)
      | some q =>
        rcases guarded_cases hguarded with hsame | ⟨hcheck, rfl⟩
        · rw [← hsame]
          exact hbehind q.1 q.2
        · exact (hbehind q.1 q.2).of_question hcheck (hdemanding (List.mem_cons_self ..))

theorem prologueThrough_elements (c : Chain) (layers : List Layer) (cur : Cursor) (q : Quantifier)
    (container : Member) : c.prologueThrough layers cur (.elements q container) = [] := by
  induction layers generalizing cur with
  | nil => rfl
  | cons layer rest ih =>
    cases layer with
    | recorder | handler | single | reporting | candidate => exact ih _
    | guard abort => cases abort <;> exact ih _

end Chain

/-! ### Along a path -/

namespace Plan
variable {c : Chain} {front : List Layer} {leaf : Member → Leaf} {path : Path} {scope : Member} {cur : Cursor}

/-- Asks at the end of a path. -/
abbrev askAlong (leaf : Member → Leaf) : Path → Member → Plan :=
  along fun scope => ask (leaf scope)

theorem askAlong_ne_connect (leaf : Member → Leaf) (path : Path) (scope : Member) (k : Connective)
    (plans : List Plan) : askAlong leaf path scope ≠ connect k plans := by
  induction path generalizing scope with
  | nil => exact nofun
  | cons key path ih =>
    cases key with
    | expand e => exact nofun
    | name | index | property => exact ih _

theorem exists_entry_forEach (c : Chain) [c.HandlerFree] (container : Member) (e : Expansion) (body : Member → Plan)
    (cur : Cursor) :
    ∃ entry, (forEach container e body).verdict c cur = elementsVerdict c container e body entry ∧
      (forEach container e body).told c cur =
        [.frame (Branch.elements e.quantifier container).frame
          (c.elementsTold container e (fun scope => told c (body scope)) (fun scope => (body scope).verdict c) entry)
          (elementsVerdict c container e body entry)] := by
  obtain ⟨entry, hentry⟩ := c.enters?_elements cur e.quantifier container
  refine ⟨entry, ?_, ?_⟩
  · rw [verdict_forEach, hentry]
    rfl
  · rw [told, Chain.branchTold, Chain.prologue, Chain.prologueThrough_elements, hentry]
    rfl

theorem says_along (h : c.Reports front) (text : String) (leaf : Member → Leaf) (path : Path) (scope : Member)
    (cur : Cursor) {around : List FrameKind} (haround : ∀ kind ∈ around, kind.isDemand = true) :
    Outline.Says text around ((askAlong leaf path scope).told c cur) := by
  have := h.handlerFree
  induction path generalizing around scope cur with
  | nil =>
    rw [askAlong, along, told, Chain.askTold]
    cases c.route cur (leaf scope) with
    | settled s => exact fun _ => rfl
    | asked cur' l => exact Outline.says_leaf haround _ l
  | cons k path ih =>
    cases k with
    | name | index | property => exact ih _ cur haround
    | expand e =>
      obtain ⟨entry, -, htold⟩ := exists_entry_forEach c scope e (askAlong leaf path) cur
      have hkind := Branch.isDemand_elements e.quantifier scope
      have hinside : ∀ kind ∈ (Branch.elements e.quantifier scope).frame :: around, kind.isDemand = true :=
        List.forall_mem_cons.2 ⟨hkind, haround⟩
      rw [askAlong, along, htold, Chain.elementsTold]
      refine Outline.says_frame haround hkind fun htext => ?_
      cases hq : e.quantifier with
      | any =>
        rw [hq] at hinside htext
        exact Outline.eraseDups_parts_flatMap (fun x _ => ih _ _ hinside) htext
      | all =>
        rw [hq] at hinside htext
        refine Outline.says_upTo (fun x _ hgoes => ?_) (fun x _ => ih _ _ hinside) htext
        -- an element that does not fail tells of no failure
        refine Outline.failingOf_eq_nil fun t ht hfail => ?_
        rw [fail_of_told h (askAlong_ne_connect leaf path _) ht hfail] at hgoes
        cases hgoes

theorem failingOf_along (h : c.Reports front) (hown : ∀ layer ∈ c.layers, layer.role ≠ .own)
    (hempty : c.settings.allEmpty ≠ .fail) (hfail : (askAlong leaf path scope).verdict c cur = .fail) :
    Outline.failingOf ((askAlong leaf path scope).told c cur) ≠ [] := by
  have := h.handlerFree
  induction path generalizing scope cur with
  | nil =>
    have hanswer : (c.route cur (leaf scope)).status c.registry = .fail := (h.verdict_ask cur _).symm.trans hfail
    have hroute : (c.route cur (leaf scope)).For (leaf scope) (Layer.guard true ∈ c.layers) :=
      c.routeThrough_for hown id cur (leaf scope)
    have hasked : ∀ (cur' : Cursor) (l : Leaf), cur'.answer c.registry l = .fail →
        Outline.failingOf [.leaf (cur'.answer c.registry l) l] ≠ [] := by
      intro cur' l hl
      rw [Outline.failingOf_singleton, Outline.failing, hl]
      exact List.cons_ne_nil _ _
    rw [askAlong, along, told, Chain.askTold]
    generalize c.route cur (leaf scope) = r at hanswer hroute ⊢
    cases hroute with
    | settled hs => exact absurd hanswer hs
    | asked | instead => exact hasked _ _ hanswer
  | cons k path ih =>
    cases k with
    | name | index | property => exact ih hfail
    | expand e =>
      intro hnone
      obtain ⟨entry, hverdict, htold⟩ := exists_entry_forEach c scope e (askAlong leaf path) cur
      have hfail : elementsVerdict c scope e (askAlong leaf path) entry = .fail := hverdict.symm.trans hfail
      rw [askAlong, along, htold, hfail, Outline.failingOf_singleton, Outline.failing, if_pos (by rfl),
        Chain.elementsTold] at hnone
      rw [elementsVerdict] at hfail
      cases hfound : entry.found? c.terms scope.path e with
      | none => rw [hfound] at hfail; cases hfail
      | some found =>
        rw [hfound] at hfail hnone
        refine Chain.verdict_tally_ne_fail hempty (fun cur scope => (askAlong leaf path scope).blind_run c cur)
          (fun x hx hxfail => ?_) hfail
        exact ih hxfail (Outline.failingOf_flatMap_eq_nil.1 hnone x hx)

/-- What is told along a path without trees is asked of a place that has been reached key by key, or it is
the question that a guard puts in its place. -/
theorem leaves_along (hown : ∀ layer ∈ c.layers, layer.role ≠ .own) (reach : Nat → Member → Prop)
    (hstep : ∀ {n m} k display?, reach (n + 1) m → reach n (m.element [k] display?))
    (htree : ∀ e, .expand e ∈ path → e.isTree = false) (hscope : reach path.length scope) :
    ∀ l ∈ Outline.leavesOf ((askAlong leaf path scope).told c cur),
      (∃ place, reach 0 place ∧ l = leaf place) ∨ l.isCheck = false ∧ Layer.guard true ∈ c.layers := by
  have := Chain.HandlerFree.of_own hown
  induction path generalizing scope cur with
  | nil =>
    have hroute : (c.route cur (leaf scope)).For (leaf scope) (Layer.guard true ∈ c.layers) :=
      c.routeThrough_for hown id cur (leaf scope)
    rw [askAlong, along, told, Chain.askTold]
    generalize c.route cur (leaf scope) = r at hroute ⊢
    cases hroute with
    | settled => exact Outline.forall_leavesOf_nil
    | asked => exact List.forall_mem_singleton.2 (.inl ⟨scope, hscope, rfl⟩)
    | instead _ hcheck hguard => exact List.forall_mem_singleton.2 (.inr ⟨hcheck, hguard⟩)
  | cons k path ih =>
    have hrest : ∀ e, .expand e ∈ path → e.isTree = false := fun e he => htree e (List.mem_cons_of_mem _ he)
    cases k with
    | name | index | property => exact ih hrest (hstep _ none hscope)
    | expand e =>
      obtain ⟨entry, -, htold⟩ := exists_entry_forEach c scope e (askAlong leaf path) cur
      rw [askAlong, along, htold, Outline.leavesOf_singleton, Outline.leaves]
      refine Outline.forall_leavesOf_flatMap fun x hx => ?_
      obtain ⟨z, found, -, hf, hx⟩ := exists_of_mem_getD_bind (mem_of_mem_upTo hx)
      obtain ⟨key, hkey⟩ := Registry.exists_key_of_mem_found? (x := x.2) (htree e (List.mem_cons_self ..)) hf hx
      rw [hkey]
      exact ih hrest (hstep key _ hscope)

end Plan

end Conform
