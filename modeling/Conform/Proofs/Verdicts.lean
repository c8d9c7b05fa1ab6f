import Conform.Proofs.Direct
import Conform.Proofs.Plan

/-!
# Answers without records

What a pass answers does not depend on what has been recorded (`Plan.blind_run`). So every plan has
a verdict, which is computed from the verdicts of its parts: a connective folds them
(`Plan.verdict_connect`), a branch hands its rules a cursor or answers for them
(`Plan.verdict_within`), and a demand counts the elements (`Plan.verdict_forEach`).
-/

namespace Conform

namespace Pass
variable {α β : Type} {x : Pass α} {f g : α → Pass β}

/-- What a run answers where nothing has been recorded. -/
def verdict (run : Pass α) : α :=
  (run.run default).1

/-- Whatever has been recorded, the run answers the same. -/
def Blind (run : Pass α) : Prop :=
  ∀ rec, (run.run rec).1 = verdict run

theorem verdict_pure (a : α) : verdict (pure a) = a := rfl

theorem blind_pure (a : α) : Blind (pure a) := fun _ => rfl

theorem verdict_bind (hf : ∀ a, Blind (f a)) : verdict (x >>= f) = verdict (f (verdict x)) :=
  hf _ _

theorem Blind.bind (hx : Blind x) (hf : ∀ a, Blind (f a)) : Blind (x >>= f) := by
  intro rec
  rw [verdict_bind hf, ← hx rec]
  exact hf _ _

theorem Blind.map (hx : Blind x) (h : α → β) : Blind (h <$> x) := by
  rw [map_eq_pure_bind]
  exact hx.bind fun a => blind_pure _

theorem verdict_map (h : α → β) (x : Pass α) : verdict (h <$> x) = h (verdict x) := rfl

theorem verdict_watched {before : Pass Unit} {after : α → Pass Unit} (hx : Blind x) :
    verdict (do before; let a ← x; after a; pure a) = verdict x :=
  hx _

theorem Blind.watched {before : Pass Unit} {after : α → Pass Unit} (hx : Blind x) :
    Blind (do before; let a ← x; after a; pure a) := fun _ =>
  (hx _).trans (hx _).symm

/-- What follows a run matters only for the answer that the run gives. -/
theorem Blind.bind_congr (hx : Blind x) (h : f (verdict x) = g (verdict x)) : x >>= f = x >>= g := by
  funext rec
  show (f (x.run rec).1).run (x.run rec).2 = (g (x.run rec).1).run (x.run rec).2
  rw [hx rec, h]

/-! ### Folds -/

variable {runs : List (Pass Status)} {seen succeeded failed : Bool}

theorem blind_allAfter (h : ∀ run ∈ runs, Blind run) : Blind (Status.allAfter seen succeeded runs) := by
  induction runs generalizing seen succeeded with
  | nil => exact blind_pure _
  | cons run runs ih =>
    obtain ⟨hrun, hruns⟩ := List.forall_mem_cons.1 h
    refine hrun.bind fun s => ?_
    cases s with
    | fail => exact blind_pure _
    | success | ignore => exact ih hruns

theorem blind_anyAfter (h : ∀ run ∈ runs, Blind run) : Blind (Status.anyAfter seen failed runs) := by
  induction runs generalizing seen failed with
  | nil => exact blind_pure _
  | cons run runs ih =>
    obtain ⟨hrun, hruns⟩ := List.forall_mem_cons.1 h
    refine hrun.bind fun s => ?_
    cases s with
    | success => exact blind_pure _
    | fail | ignore => exact ih hruns

theorem verdict_allAfter (h : ∀ run ∈ runs, Blind run) :
    verdict (Status.allAfter seen succeeded runs) =
      verdict (Status.allAfter seen succeeded ((runs.map verdict).map (pure (f := Pass)))) := by
  induction runs generalizing seen succeeded with
  | nil => rfl
  | cons run runs ih =>
    obtain ⟨-, hruns⟩ := List.forall_mem_cons.1 h
    rw [Status.allAfter, verdict_bind, List.map_cons, List.map_cons, Status.allAfter, pure_bind]
    · cases verdict run with
      | fail => rfl
      | success | ignore => exact ih hruns
    · intro s
      cases s with
      | fail => exact blind_pure _
      | success | ignore => exact blind_allAfter hruns

theorem verdict_anyAfter (h : ∀ run ∈ runs, Blind run) :
    verdict (Status.anyAfter seen failed runs) =
      verdict (Status.anyAfter seen failed ((runs.map verdict).map (pure (f := Pass)))) := by
  induction runs generalizing seen failed with
  | nil => rfl
  | cons run runs ih =>
    obtain ⟨-, hruns⟩ := List.forall_mem_cons.1 h
    rw [Status.anyAfter, verdict_bind, List.map_cons, List.map_cons, Status.anyAfter, pure_bind]
    · cases verdict run with
      | success => rfl
      | fail | ignore => exact ih hruns
    · intro s
      cases s with
      | success => exact blind_pure _
      | fail | ignore => exact blind_anyAfter hruns

theorem blind_connect (k : Connective) (h : ∀ run ∈ runs, Blind run) : Blind (Chain.connect k runs) := by
  cases k with
  | and => exact blind_allAfter h
  | or => exact blind_anyAfter h
  | not => exact (blind_allAfter h).map _

theorem verdict_connect (k : Connective) (h : ∀ run ∈ runs, Blind run) :
    verdict (Chain.connect k runs) = k.fold (runs.map verdict) := by
  have hpure : verdict (Chain.connect k runs) = verdict (Chain.connect k ((runs.map verdict).map pure)) := by
    cases k with
    | and => exact verdict_allAfter h
    | or => exact verdict_anyAfter h
    | not =>
      rw [Chain.connect, Chain.connect, verdict_map, verdict_map]
      exact congrArg Status.negate (verdict_allAfter h)
  rw [hpure, Chain.connect_pure, verdict_pure]

end Pass

/-! ### Layers -/

theorem Pass.blind_handling {α : Type} {perform : α → Pass Status} (h : ∀ a, Blind (perform a)) (k : Handling α) :
    Blind (k.run perform) := by
  induction k with
  | answer s => exact blind_pure s
  | call a next ih => exact (h a).bind ih

namespace Chain
variable {c : Chain} {layers : List Layer} {cur : Cursor} {b : Branch} {body body' : Cursor → Pass Status}

open Pass

theorem blind_askThrough (c : Chain) (layers : List Layer) (cur : Cursor) (l : Leaf) :
    Blind (c.askThrough layers cur l) := by
  induction layers generalizing cur l with
  | nil => exact blind_pure _
  | cons layer rest ih =>
    cases layer with
    | recorder name => exact (ih cur l).watched
    | reporting => exact fun rec => ih cur l rec
    | handler h => exact blind_handling (fun q : Cursor × Leaf => ih q.1 q.2) _
    | single pattern =>
      rw [askThrough]
      split
      · exact ih cur l
      · exact blind_pure _
    | candidate cand =>
      rw [askThrough]
      cases cand.redirect? cur l with
      | none => exact blind_pure _
      | some cur => exact ih cur l
    | guard abort =>
      rw [askThrough]
      cases c.guarded abort cur l with
      | none => exact blind_pure _
      | some q => exact ih q.1 q.2

theorem blind_ask (c : Chain) (cur : Cursor) (l : Leaf) : Blind (c.ask cur l) :=
  c.blind_askThrough c.layers cur l

theorem blind_askIfAny (c : Chain) (question? : Option (Cursor × Leaf)) : Blind (c.askIfAny question?) := by
  cases question? with
  | none => exact blind_pure _
  | some q => exact c.blind_ask q.1 q.2

theorem blind_precheck (c : Chain) (cur : Cursor) (scope : Member) (rules : List Rule) :
    Blind (c.precheck cur scope rules) := by
  refine (c.blind_askIfAny _).bind fun s => ?_
  split
  · exact c.blind_askIfAny _
  · exact blind_pure s

theorem verdict_precheck (c : Chain) (cur : Cursor) (scope : Member) (rules : List Rule) :
    verdict (c.precheck cur scope rules) =
      if (verdict (c.askIfAny (c.missingMember? cur (Mentions.ofRules scope rules).members))).isSuccess then
        verdict (c.askIfAny (c.missingOperand? cur (Mentions.ofRules scope rules).operands))
      else verdict (c.askIfAny (c.missingMember? cur (Mentions.ofRules scope rules).members)) := by
  rw [precheck, verdict_bind]
  · split <;> rfl
  · intro s
    split
    · exact c.blind_askIfAny _
    · exact blind_pure s

/-- The cursor from which the rules of a branch are evaluated behind the given layers, of which none is
a handler; there is none if a layer answers for the branch, which then fails. -/
def entersThrough (c : Chain) : List Layer → Cursor → Branch → Option Cursor
  | [], cur, _ => some cur
  | .candidate cand :: rest, cur, b =>
    match b with
    | .elements _ container =>
      entersThrough c rest (if cand.holds container.path then cand.enter cur else cur) b
    | _ => entersThrough c rest cur b
  | .guard abort :: rest, cur, b =>
    match abort, b with
    | true, .group .not scope rules =>
      if (verdict (c.precheck cur scope rules)).isFail then none else entersThrough c rest cur b
    | _, _ => entersThrough c rest cur b
  | _ :: rest, cur, b => entersThrough c rest cur b

def enters? (c : Chain) (cur : Cursor) (b : Branch) : Option Cursor :=
  c.entersThrough c.layers cur b

/-- What the outermost layer does about a branch before the layers behind it have their turn. -/
inductive Turn (c : Chain) (layer : Layer) (rest : List Layer) (cur : Cursor) (b : Branch) : Prop
  /-- It hands on a cursor. -/
  | move (entry : Cursor)
    (around : ∀ body, c.aroundThrough (layer :: rest) cur b body = c.aroundThrough rest entry b body)
    (enters : c.entersThrough (layer :: rest) cur b = c.entersThrough rest entry b)
  /-- It only watches. -/
  | watch (before : Pass Unit) (after : Status → Pass Unit)
    (around : ∀ body, c.aroundThrough (layer :: rest) cur b body =
      do before; let s ← c.aroundThrough rest cur b body; after s; pure s)
    (enters : c.entersThrough (layer :: rest) cur b = c.entersThrough rest cur b)
  /-- It looks for what the rules of a negation read. -/
  | check (scope : Member) (rules : List Rule) (negation : b = .group .not scope rules)
    (around : ∀ body, c.aroundThrough (layer :: rest) cur b body =
      do let s ← c.precheck cur scope rules; if s.isFail then pure s else c.aroundThrough rest cur b body)
    (enters : c.entersThrough (layer :: rest) cur b =
      if (verdict (c.precheck cur scope rules)).isFail then none else c.entersThrough rest cur b)

theorem turn (c : Chain) {layer : Layer} (h : layer.isHandler = false) (rest : List Layer) (cur : Cursor)
    (b : Branch) : c.Turn layer rest cur b := by
  cases layer with
  | recorder | reporting => exact .watch _ _ (fun _ => rfl) rfl
  | handler => cases h
  | single => exact .move cur (fun _ => rfl) rfl
  | candidate cand => cases b <;> exact .move _ (fun _ => rfl) rfl
  | guard abort =>
    cases abort with
    | false => exact .move cur (fun _ => rfl) rfl
    | true =>
      cases b with
      | elements | explained => exact .move cur (fun _ => rfl) rfl
      | group k scope rules =>
        cases k with
        | and | or => exact .move cur (fun _ => rfl) rfl
        | not => exact .check scope rules rfl (fun _ => rfl) rfl

/-- Only negations are answered for. -/
theorem group_not_of_entersThrough (hfree : ∀ layer ∈ layers, layer.isHandler = false)
    (h : c.entersThrough layers cur b = none) : ∃ scope rules, b = .group .not scope rules := by
  induction layers generalizing cur with
  | nil => cases h
  | cons layer rest ih =>
    obtain ⟨hlayer, hrest⟩ := List.forall_mem_cons.1 hfree
    cases c.turn hlayer rest cur b with
    | move entry _ henters | watch _ _ _ henters => exact ih hrest (henters ▸ h)
    | check scope rules hb => exact ⟨scope, rules, hb⟩

theorem group_not_of_enters? [c.HandlerFree] (h : c.enters? cur b = none) : ∃ scope rules, b = .group .not scope rules :=
  group_not_of_entersThrough HandlerFree.isHandler_eq h

theorem enters?_elements (c : Chain) [c.HandlerFree] (cur : Cursor) (q : Quantifier) (container : Member) :
    ∃ entry, c.enters? cur (.elements q container) = some entry := by
  cases h : c.enters? cur (.elements q container) with
  | none => obtain ⟨_, _, hb⟩ := group_not_of_enters? h; cases hb
  | some entry => exact ⟨entry, rfl⟩

theorem blind_aroundThrough (h : ∀ cur, Blind (body cur)) : Blind (c.aroundThrough layers cur b body) := by
  induction layers generalizing cur b with
  | nil => exact h cur
  | cons layer rest ih =>
    cases hlayer : layer.isHandler with
    | true =>
      cases layer with
      | handler k =>
        refine blind_handling (fun errand => ?_) _
        cases errand with
        | follow | reword => exact ih
        | ask cur l => exact c.blind_askThrough rest cur l
        | restart cur l => exact c.blind_ask cur l
      | recorder | single | candidate | guard | reporting => cases hlayer
    | false =>
      cases c.turn hlayer rest cur b with
      | move entry haround => exact haround body ▸ ih
      | watch before after haround => exact haround body ▸ ih.watched
      | check scope rules _ haround =>
        rw [haround]
        refine (c.blind_precheck cur scope rules).bind fun s => ?_
        split
        · exact blind_pure s
        · exact ih

theorem blind_around (h : ∀ cur, Blind (body cur)) : Blind (c.around cur b body) :=
  blind_aroundThrough h

/-- A branch is answered by its rules, from the cursor that the layers hand over. -/
theorem verdict_aroundThrough (hfree : ∀ layer ∈ layers, layer.isHandler = false) (h : ∀ cur, Blind (body cur)) :
    verdict (c.aroundThrough layers cur b body) =
      ((c.entersThrough layers cur b).map fun cur => verdict (body cur)).getD .fail := by
  induction layers generalizing cur with
  | nil => rfl
  | cons layer rest ih =>
    obtain ⟨hlayer, hrest⟩ := List.forall_mem_cons.1 hfree
    cases c.turn hlayer rest cur b with
    | move entry haround henters => rw [haround, henters, ih hrest]
    | watch before after haround henters =>
      rw [haround, henters, verdict_watched (blind_aroundThrough h), ih hrest]
    | check scope rules _ haround henters =>
      rw [haround, henters, verdict_bind]
      · cases verdict (c.precheck cur scope rules) with
        | fail => rfl
        | success | ignore => exact ih hrest
      · intro s
        split
        · exact blind_pure s
        · exact blind_aroundThrough h

theorem verdict_around [c.HandlerFree] (h : ∀ cur, Blind (body cur)) :
    verdict (c.around cur b body) = ((c.enters? cur b).map fun cur => verdict (body cur)).getD .fail :=
  verdict_aroundThrough HandlerFree.isHandler_eq h

/-- A branch is run the same if its rules are, from the cursor that is handed over. -/
theorem aroundThrough_congr (hfree : ∀ layer ∈ layers, layer.isHandler = false)
    (h : ∀ entry, c.entersThrough layers cur b = some entry → body entry = body' entry) :
    c.aroundThrough layers cur b body = c.aroundThrough layers cur b body' := by
  induction layers generalizing cur with
  | nil => exact h cur rfl
  | cons layer rest ih =>
    obtain ⟨hlayer, hrest⟩ := List.forall_mem_cons.1 hfree
    cases c.turn hlayer rest cur b with
    | move entry haround henters => rw [haround, haround, ih hrest (henters ▸ h)]
    | watch before after haround henters => rw [haround, haround, ih hrest (henters ▸ h)]
    | check scope rules _ haround henters =>
      rw [haround, haround]
      rw [henters] at h
      refine (c.blind_precheck cur scope rules).bind_congr ?_
      split
      · rfl
      next hs => exact ih hrest fun entry he => h entry (by rw [if_neg hs, he])

theorem around_congr [c.HandlerFree] (h : ∀ entry, c.enters? cur b = some entry → body entry = body' entry) :
    c.around cur b body = c.around cur b body' :=
  aroundThrough_congr HandlerFree.isHandler_eq h

end Chain

/-! ### Demands -/

namespace Pass
variable {α σ : Type} {visit visit' : α → σ → Pass (ForInStep σ)} {xs : List α} {s : σ}

theorem blind_visitEach (h : ∀ x ∈ xs, ∀ s, Blind (visit x s)) : Blind (visitEach visit xs s) := by
  induction xs generalizing s with
  | nil => exact blind_pure _
  | cons x xs ih =>
    obtain ⟨hx, hxs⟩ := List.forall_mem_cons.1 h
    rw [visitEach_cons]
    refine (hx s).bind fun step => ?_
    cases step with
    | done s => exact blind_pure _
    | yield s => exact ih hxs

theorem verdict_visitEach_cons {x : α} (h : ∀ x ∈ xs, ∀ s, Blind (visit x s)) :
    verdict (visitEach visit (x :: xs) s) =
      match verdict (visit x s) with
      | .done s => .done s
      | .yield s => verdict (visitEach visit xs s) := by
  rw [visitEach_cons, verdict_bind]
  · cases verdict (visit x s) <;> rfl
  · intro step
    cases step with
    | done s => exact blind_pure _
    | yield s => exact blind_visitEach h

end Pass

namespace Chain
variable {c : Chain} {container : Member} {e : Expansion} {body : Eval} {cur : Cursor}
  {found : List (Path × Object)}

open Pass

/-- One visit of a demand's loop. -/
def visit (c : Chain) (container : Member) (e : Expansion) (body : Eval) (cur : Cursor) (x : Path × Object)
    (t : Tally) : Pass (ForInStep Tally) :=
  c.count e.quantifier (container.element x.1 e.display?) t <$>
    body (cur.atElement container x) (container.element x.1 e.display?)

theorem tally_eq_map : c.tally container e body cur found =
    (fun step => step.value.conclude e.quantifier c.settings.allEmpty) <$>
      visitEach (c.visit container e body cur) found {} := by
  rw [map_eq_pure_bind]
  exact bind_congr fun step => by cases step <;> rfl

theorem blind_visit (h : ∀ cur scope, Blind (body cur scope)) (x : Path × Object) (t : Tally) :
    Blind (c.visit container e body cur x t) :=
  (h _ _).map _

theorem blind_tally (h : ∀ cur scope, Blind (body cur scope)) : Blind (c.tally container e body cur found) := by
  rw [tally_eq_map]
  exact (blind_visitEach fun x _ t => blind_visit h x t).map _

theorem blind_overElements (h : ∀ cur scope, Blind (body cur scope)) (cur : Cursor) :
    Blind (c.overElements container e body cur) := by
  rw [overElements_eq]
  split
  · exact blind_pure _
  · exact blind_tally h

theorem verdict_tally_of_count (hcount : ∀ scope, c.count e.quantifier scope = Tally.step e.quantifier)
    (h : ∀ cur scope, Blind (body cur scope)) :
    verdict (c.tally container e body cur found) =
      e.quantifier.fold c.settings.allEmpty
        (found.map fun x => verdict (body (cur.atElement container x) (container.element x.1 e.display?))) := by
  rw [tally_eq_map, verdict_map, ← Tally.conclusion_eq_fold]
  generalize ({} : Tally) = t
  induction found generalizing t with
  | nil => rfl
  | cons x xs ih =>
    rw [verdict_visitEach_cons fun x _ t => blind_visit h x t, visit, verdict_map, hcount, List.map_cons,
      Tally.conclusion]
    cases t.step e.quantifier _ with
    | done t => rfl
    | yield t => exact ih t

theorem verdict_tally (hpasses : ∀ m s, c.passes m s = s.isSuccess) (h : ∀ cur scope, Blind (body cur scope)) :
    verdict (c.tally container e body cur found) =
      e.quantifier.fold c.settings.allEmpty
        (found.map fun x => verdict (body (cur.atElement container x) (container.element x.1 e.display?))) := by
  refine verdict_tally_of_count (fun scope => ?_) h
  funext t s
  simp only [count, Tally.step, hpasses]

theorem verdict_tally_any (hq : e.quantifier = .any) (h : ∀ cur scope, Blind (body cur scope)) :
    let answer (x : Path × Object) := verdict (body (cur.atElement container x) (container.element x.1 e.display?))
    verdict (c.tally container e body cur found) =
      if found.any fun x => c.passes (container.element x.1 e.display?) (answer x) then .success
      else if found.any fun x => (answer x).isFail then .fail else .ignore := by
  intro answer
  -- so far none has passed, and some may have failed
  have hloop : ∀ t : Tally, t.succeeded = false →
      (verdict (visitEach (c.visit container e body cur) found t)).value.conclude .any c.settings.allEmpty =
        if found.any fun x => c.passes (container.element x.1 e.display?) (answer x) then .success
        else if t.failed || found.any fun x => (answer x).isFail then .fail else .ignore := by
    induction found with
    | nil =>
      rintro ⟨seen, succeeded, failed⟩ rfl
      cases failed <;> rfl
    | cons x xs ih =>
      intro t ht
      rw [verdict_visitEach_cons fun x _ t => blind_visit h x t, visit, verdict_map, hq, List.any_cons, List.any_cons]
      by_cases hpass : c.passes (container.element x.1 e.display?) (answer x) = true
      · have hcount : c.count .any (container.element x.1 e.display?) t (answer x) =
            .done { t with seen := true, succeeded := true } := if_pos hpass
        rw [hcount, hpass]
        rfl
      · have hcount : c.count .any (container.element x.1 e.display?) t (answer x) =
            .yield { t with seen := true, failed := t.failed || (answer x).isFail } := if_neg hpass
        rw [hcount, Bool.eq_false_iff.2 hpass, Bool.false_or, ← Bool.or_assoc]
        exact ih _ ht
  rw [tally_eq_map, verdict_map, hq, hloop {} rfl, Bool.false_or]

end Chain

namespace Plan

open Pass

theorem blind_run (c : Chain) (p : Plan) (cur : Cursor) : Blind (p.run c cur) := by
  induction p generalizing cur with
  | ask l => exact c.blind_ask cur l
  | connect k plans ih =>
    rw [run, runs_eq_map]
    refine blind_connect k fun run hrun => ?_
    obtain ⟨p, hp, rfl⟩ := List.mem_map.1 hrun
    exact ih p hp cur
  | within b body ih => exact Chain.blind_around ih
  | forEach container e body ih =>
    exact Chain.blind_around (Chain.blind_overElements fun cur scope => ih scope cur)

/-- What a plan answers, seen from a cursor. -/
def verdict (c : Chain) (p : Plan) (cur : Cursor) : Status :=
  Pass.verdict (p.run c cur)

variable {c : Chain} {cur : Cursor}

theorem verdict_connect (k : Connective) (plans : List Plan) :
    (connect k plans).verdict c cur = k.fold (plans.map (verdict c · cur)) := by
  rw [verdict, run, runs_eq_map, Pass.verdict_connect, List.map_map]
  · rfl
  · intro run hrun
    obtain ⟨p, -, rfl⟩ := List.mem_map.1 hrun
    exact p.blind_run c cur

theorem verdict_within [c.HandlerFree] (b : Branch) (body : Plan) :
    (within b body).verdict c cur = ((c.enters? cur b).map (verdict c body)).getD .fail :=
  Chain.verdict_around (body.blind_run c)

/-- What a demand answers from where its elements are looked for. -/
def elementsVerdict (c : Chain) (container : Member) (e : Expansion) (body : Member → Plan) (cur : Cursor) :
    Status :=
  match cur.found? c.terms container.path e with
  | none => .ignore
  | some found => Pass.verdict (c.tally container e (fun cur scope => (body scope).run c cur) cur found)

theorem verdict_overElements (container : Member) (e : Expansion) (body : Member → Plan) (cur : Cursor) :
    Pass.verdict (c.overElements container e (fun cur scope => (body scope).run c cur) cur) =
      elementsVerdict c container e body cur := by
  rw [elementsVerdict, Chain.overElements_eq]
  cases cur.found? c.terms container.path e <;> rfl

/-- Where a success passes, the elements of a demand are folded like the rules of a connective. -/
theorem elementsVerdict_some (hpasses : ∀ m s, c.passes m s = s.isSuccess) {container : Member} {e : Expansion}
    {found : List (Path × Object)} (hfound : cur.found? c.terms container.path e = some found) (body : Member → Plan) :
    elementsVerdict c container e body cur =
      e.quantifier.fold c.settings.allEmpty
        (found.map fun x => (body (container.element x.1 e.display?)).verdict c (cur.atElement container x)) := by
  rw [elementsVerdict, hfound]
  exact Chain.verdict_tally hpasses fun cur scope => (body scope).blind_run c cur

section Found
variable {container : Member} {e : Expansion} {found : List (Path × Object)}

theorem elementsVerdict_all (hq : e.quantifier = .all) (hfound : cur.found? c.terms container.path e = some found)
    (body : Member → Plan) :
    elementsVerdict c container e body cur = Quantifier.all.fold c.settings.allEmpty
      (found.map fun x => (body (container.element x.1 e.display?)).verdict c (cur.atElement container x)) := by
  have hcount : ∀ scope, c.count e.quantifier scope = Tally.step e.quantifier := fun scope => by
    rw [hq]
    rfl
  rw [elementsVerdict, hfound, ← hq]
  exact Chain.verdict_tally_of_count hcount fun cur scope => (body scope).blind_run c cur

theorem elementsVerdict_any (hq : e.quantifier = .any) (hfound : cur.found? c.terms container.path e = some found)
    (body : Member → Plan) :
    elementsVerdict c container e body cur =
      if found.any fun x => c.passes (container.element x.1 e.display?)
        ((body (container.element x.1 e.display?)).verdict c (cur.atElement container x)) then .success
      else if found.any fun x => ((body (container.element x.1 e.display?)).verdict c (cur.atElement container x)).isFail
      then .fail else .ignore := by
  rw [elementsVerdict, hfound]
  exact Chain.verdict_tally_any hq fun cur scope => (body scope).blind_run c cur

end Found

theorem verdict_forEach [c.HandlerFree] (container : Member) (e : Expansion) (body : Member → Plan) :
    (forEach container e body).verdict c cur =
      ((c.enters? cur (.elements e.quantifier container)).map (elementsVerdict c container e body)).getD .fail := by
  have hblind : ∀ cur, Blind (c.overElements container e (fun cur scope => (body scope).run c cur) cur) :=
    Chain.blind_overElements fun cur scope => (body scope).blind_run c cur
  rw [verdict, run, Chain.demand, Chain.verdict_around hblind]
  simp only [verdict_overElements]

end Plan

end Conform
