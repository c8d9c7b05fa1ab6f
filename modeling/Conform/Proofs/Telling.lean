import Conform.Proofs.Outline
import Conform.Proofs.Policies

/-!
# What a pass tells

Where the reporter stands behind all other layers, a pass tells it a forest, which is computed along
the plan (`Plan.told`): a leaf that reaches the reporter is told with its answer, a branch that is
entered with what its rules tell, up to the rule or the element that decides. Running the plan leaves
just that behind (`Plan.tells_run`), so that a report is what the forest leaves
(`Validator.run_eq_report`).
-/

namespace Conform

theorem Outline.eventsOf_append (ts us : List Outline) :
    eventsOf (ts ++ us) = eventsOf ts ++ eventsOf us := by
  induction ts with
  | nil => rfl
  | cons t ts ih => rw [List.cons_append, eventsOf, eventsOf, ih, List.append_assoc]

/-- The record after the reporter has been told a forest. -/
def Record.hear (rec : Record) (ts : List Outline) : Record :=
  { rec with reporter := rec.reporter.hearAll (Outline.eventsOf ts) }

theorem Record.hear_append (rec : Record) (ts us : List Outline) : (rec.hear ts).hear us = rec.hear (ts ++ us) := by
  simp only [hear, Reporter.hearAll, Outline.eventsOf_append, List.foldl_append]

namespace Pass
variable {α β : Type} {x : Pass α} {f : α → Pass β} {ts us : List Outline}

/-- The run tells the reporter a forest and records nothing else. -/
def Tells (run : Pass α) (ts : List Outline) : Prop :=
  ∀ rec, (run.run rec).2 = rec.hear ts

theorem tells_pure (a : α) : Tells (pure a) [] := fun _ => rfl

theorem Tells.bind (hx : Tells x ts) (hblind : Blind x) (hf : Tells (f (verdict x)) us) :
    Tells (x >>= f) (ts ++ us) := by
  intro rec
  show ((f (x.run rec).1).run (x.run rec).2).2 = _
  rw [hblind rec, hx rec, hf, Record.hear_append]

theorem Tells.map (hx : Tells x ts) (g : α → β) : Tells (g <$> x) ts := fun rec => hx rec

/-! ### Folds -/

variable {runs : List (Pass Status)} {seen succeeded failed : Bool}

theorem tells_allAfter {γ : Type} {run : γ → Pass Status} {told : γ → List Outline} {xs : List γ}
    (hblind : ∀ x, Blind (run x)) (h : ∀ x ∈ xs, Tells (run x) (told x)) :
    Tells (Status.allAfter seen succeeded (xs.map run))
      ((upTo (fun x => (verdict (run x)).isFail) xs).flatMap told) := by
  induction xs generalizing seen succeeded with
  | nil => exact tells_pure _
  | cons x xs ih =>
    obtain ⟨hx, hxs⟩ := List.forall_mem_cons.1 h
    rw [List.map_cons, Status.allAfter, upTo, List.flatMap_cons]
    refine hx.bind (hblind x) ?_
    cases verdict (run x) with
    | fail => exact tells_pure _
    | success | ignore => exact ih hxs

theorem tells_anyAfter {γ : Type} {run : γ → Pass Status} {told : γ → List Outline} {xs : List γ}
    (hblind : ∀ x, Blind (run x)) (h : ∀ x ∈ xs, Tells (run x) (told x)) :
    Tells (Status.anyAfter seen failed (xs.map run))
      ((upTo (fun x => (verdict (run x)).isSuccess) xs).flatMap told) := by
  induction xs generalizing seen failed with
  | nil => exact tells_pure _
  | cons x xs ih =>
    obtain ⟨hx, hxs⟩ := List.forall_mem_cons.1 h
    rw [List.map_cons, Status.anyAfter, upTo, List.flatMap_cons]
    refine hx.bind (hblind x) ?_
    cases verdict (run x) with
    | success => exact tells_pure _
    | fail | ignore => exact ih hxs

theorem tells_connect {γ : Type} {run : γ → Pass Status} {told : γ → List Outline} {xs : List γ} (k : Connective)
    (hblind : ∀ x, Blind (run x)) (h : ∀ x ∈ xs, Tells (run x) (told x)) :
    Tells (Chain.connect k (xs.map run)) ((upTo (fun x => k.decides (verdict (run x))) xs).flatMap told) := by
  cases k with
  | and => exact tells_allAfter hblind h
  | or => exact tells_anyAfter hblind h
  | not => exact (tells_allAfter hblind h).map _

end Pass

/-! ### Layers -/

/-- The layer writes nothing, and what it does about a call is known. -/
def Layer.isQuiet : Layer → Bool
  | recorder _ | handler _ | reporting => false
  | single _ | candidate _ | guard _ => true

/-- The reporter stands behind all other layers, and nothing but the report is recorded. -/
structure Chain.Reports (c : Chain) (front : List Layer) : Prop where
  layers : c.layers = front ++ [.reporting]
  quiet : ∀ layer ∈ front, layer.isQuiet = true

theorem Chain.Reports.handlerFree {c : Chain} {front : List Layer} (h : c.Reports front) : c.HandlerFree where
  isHandler_eq layer hlayer := by
    rw [h.layers] at hlayer
    rcases List.mem_append.1 hlayer with hlayer | hlayer
    · have hquiet := h.quiet layer hlayer
      cases layer with
      | handler => cases hquiet
      | recorder | single | candidate | guard | reporting => rfl
    · rw [List.mem_singleton.1 hlayer]
      rfl

/-- What becomes of a leaf: a layer answers it, or the object is asked, and the reporter is told. -/
inductive Route where
  | settled (s : Status)
  | asked (cur : Cursor) (l : Leaf)

namespace Route

def status (r : Registry) : Route → Status
  | settled s => s
  | asked cur l => cur.answer r l

def told (r : Registry) : Route → List Outline
  | settled _ => []
  | asked cur l => [.leaf (cur.answer r l) l]

def run (r : Registry) : Route → Pass Status
  | settled s => pure s
  | asked cur l => do
    Pass.report (·.leaf (cur.answer r l) l)
    pure (cur.answer r l)

end Route

namespace Chain

open Pass

def routeThrough (c : Chain) : List Layer → Cursor → Leaf → Route
  | [], cur, l => .asked cur l
  | .single pattern :: rest, cur, l =>
    if Layer.covers pattern l then routeThrough c rest cur l else .settled .success
  | .candidate cand :: rest, cur, l =>
    match cand.redirect? cur l with
    | some cur => routeThrough c rest cur l
    | none => .settled .success
  | .guard abort :: rest, cur, l =>
    match c.guarded abort cur l with
    | some (cur, l) => routeThrough c rest cur l
    | none => .settled .ignore
  | _ :: rest, cur, l => routeThrough c rest cur l

/-- What becomes of a leaf in the chain. -/
def route (c : Chain) (cur : Cursor) (l : Leaf) : Route :=
  c.routeThrough c.layers cur l

/-- What asking a leaf tells. -/
def askTold (c : Chain) (cur : Cursor) (l : Leaf) : List Outline :=
  (c.route cur l).told c.registry

def askIfAnyTold (c : Chain) : Option (Cursor × Leaf) → List Outline
  | some (cur, l) => c.askTold cur l
  | none => []

/-- What looking for what a negation mentions tells. -/
def precheckTold (c : Chain) (cur : Cursor) (scope : Member) (rules : List Rule) : List Outline :=
  let member? := c.missingMember? cur (Mentions.ofRules scope rules).members
  let operand? := c.missingOperand? cur (Mentions.ofRules scope rules).operands
  c.askIfAnyTold member? ++ if (verdict (c.askIfAny member?)).isSuccess then c.askIfAnyTold operand? else []

/-- What is told before a branch opens. -/
def prologueThrough (c : Chain) : List Layer → Cursor → Branch → List Outline
  | [], _, _ => []
  | .candidate cand :: rest, cur, b =>
    match b with
    | .elements _ container =>
      prologueThrough c rest (if cand.holds container.path then cand.enter cur else cur) b
    | _ => prologueThrough c rest cur b
  | .guard abort :: rest, cur, b =>
    match abort, b with
    | true, .group .not scope rules =>
      c.precheckTold cur scope rules ++
        if (verdict (c.precheck cur scope rules)).isFail then [] else prologueThrough c rest cur b
    | _, _ => prologueThrough c rest cur b
  | _ :: rest, cur, b => prologueThrough c rest cur b

def prologue (c : Chain) (cur : Cursor) (b : Branch) : List Outline :=
  c.prologueThrough c.layers cur b

/-- What a branch tells whose rules answer and tell as given. -/
def branchTold (c : Chain) (cur : Cursor) (b : Branch) (told : Cursor → List Outline) (answer : Cursor → Status) :
    List Outline :=
  c.prologue cur b ++ ((c.enters? cur b).map fun entry => .frame b.frame (told entry) (answer entry)).toList

variable {c : Chain} {front layers : List Layer} {cur : Cursor} {l : Leaf} {b : Branch} {body : Cursor → Pass Status}

theorem askThrough_run (hquiet : ∀ layer ∈ front, layer.isQuiet = true) (cur : Cursor) (l : Leaf) :
    c.askThrough (front ++ [.reporting]) cur l =
      (c.routeThrough (front ++ [.reporting]) cur l).run c.registry := by
  induction front generalizing cur l with
  | nil => rfl
  | cons layer front ih =>
    obtain ⟨hlayer, hfront⟩ := List.forall_mem_cons.1 hquiet
    cases layer with
    | recorder | handler | reporting => cases hlayer
    | single pattern =>
      rw [List.cons_append, askThrough, routeThrough]
      split
      · exact ih hfront cur l
      · rfl
    | candidate cand =>
      rw [List.cons_append, askThrough, routeThrough]
      cases cand.redirect? cur l with
      | none => rfl
      | some cur => exact ih hfront cur l
    | guard abort =>
      rw [List.cons_append, askThrough, routeThrough]
      cases c.guarded abort cur l with
      | none => rfl
      | some q => exact ih hfront q.1 q.2

namespace Reports
variable (h : c.Reports front)
include h

theorem ask_run (cur : Cursor) (l : Leaf) :
    c.ask cur l = (c.route cur l).run c.registry := by
  rw [ask, route, h.layers, askThrough_run h.quiet]

theorem verdict_ask (cur : Cursor) (l : Leaf) : verdict (c.ask cur l) = (c.route cur l).status c.registry := by
  rw [h.ask_run]
  cases c.route cur l <;> rfl

theorem tells_ask (cur : Cursor) (l : Leaf) : Tells (c.ask cur l) (c.askTold cur l) := by
  rw [h.ask_run, askTold]
  cases c.route cur l <;> exact fun _ => rfl

theorem tells_askIfAny (question? : Option (Cursor × Leaf)) :
    Tells (c.askIfAny question?) (c.askIfAnyTold question?) := by
  cases question? with
  | none => exact tells_pure _
  | some q => exact h.tells_ask q.1 q.2

theorem tells_precheck (cur : Cursor) (scope : Member) (rules : List Rule) :
    Tells (c.precheck cur scope rules) (c.precheckTold cur scope rules) := by
  refine (h.tells_askIfAny _).bind (c.blind_askIfAny _) ?_
  split
  · exact h.tells_askIfAny _
  · exact tells_pure _

theorem tells_aroundThrough {layers : List Layer} (hquiet : ∀ layer ∈ layers, layer.isQuiet = true)
    {told : Cursor → List Outline} (hblind : ∀ cur, Blind (body cur)) (hbody : ∀ cur, Tells (body cur) (told cur))
    (cur : Cursor) :
    Tells (c.aroundThrough (layers ++ [.reporting]) cur b body)
      (c.prologueThrough (layers ++ [.reporting]) cur b ++
        ((c.entersThrough (layers ++ [.reporting]) cur b).map fun entry =>
          .frame b.frame (told entry) (verdict (body entry))).toList) := by
  induction layers generalizing cur with
  | nil =>
    intro rec
    set opened : Record := { rec with reporter := rec.reporter.enter b.frame } with hopened
    have hinner : ((body cur).run opened).2 = opened.hear (told cur) := hbody cur opened
    have hanswer : ((body cur).run opened).1 = verdict (body cur) := hblind cur opened
    show ({ ((body cur).run opened).2 with
      reporter := ((body cur).run opened).2.reporter.leave ((body cur).run opened).1 } : Record) = _
    rw [hinner, hanswer, hopened]
    simp [Record.hear, Reporter.hearAll, prologueThrough, entersThrough, Outline.eventsOf, Outline.events,
      Reporter.hear]
  | cons layer rest ih =>
    obtain ⟨hlayer, hrest⟩ := List.forall_mem_cons.1 hquiet
    cases layer with
    | recorder | handler | reporting => cases hlayer
    | single => exact ih hrest cur
    | candidate cand =>
      cases b with
      | group | explained => exact ih hrest cur
      | elements q container => exact ih hrest _
    | guard abort =>
      cases abort with
      | false => exact ih hrest cur
      | true =>
        cases b with
        | elements | explained => exact ih hrest cur
        | group k scope rules =>
          cases k with
          | and | or => exact ih hrest cur
          | not =>
            rw [List.cons_append, aroundThrough, prologueThrough, entersThrough, List.append_assoc]
            refine (h.tells_precheck cur scope rules).bind (c.blind_precheck cur scope rules) ?_
            cases hs : (verdict (c.precheck cur scope rules)).isFail with
            | true => exact tells_pure _
            | false => exact ih hrest cur

/-- A branch tells what comes before it and, if it is entered, its rules inside a frame. -/
theorem tells_around {told : Cursor → List Outline} (hblind : ∀ cur, Blind (body cur))
    (hbody : ∀ cur, Tells (body cur) (told cur)) (cur : Cursor) (b : Branch) :
    Tells (c.around cur b body) (c.branchTold cur b told fun entry => verdict (body entry)) := by
  rw [around, branchTold, prologue, enters?, h.layers]
  exact h.tells_aroundThrough h.quiet hblind hbody cur

end Reports

/-- What a demand on elements tells from where they are looked for. -/
def elementsTold (c : Chain) (container : Member) (e : Expansion) (told : Member → Cursor → List Outline)
    (answer : Member → Cursor → Status) (cur : Cursor) : List Outline :=
  (upTo (fun x => c.ends e.quantifier (container.element x.1 e.display?)
      (answer (container.element x.1 e.display?) (cur.atElement container x)))
    ((cur.found? c.terms container.path e).getD [])).flatMap fun x =>
      told (container.element x.1 e.display?) (cur.atElement container x)

theorem elementsTold_of_fail {container : Member} {e : Expansion} {told : Member → Cursor → List Outline}
    {answer : Member → Cursor → Status} {x : Path × Object} {found : List (Path × Object)} (he : e.quantifier = .all)
    (hfound : cur.found? c.terms container.path e = some (x :: found))
    (hfail : answer (container.element x.1 e.display?) (cur.atElement container x) = .fail) :
    c.elementsTold container e told answer cur =
      told (container.element x.1 e.display?) (cur.atElement container x) := by
  have hends : c.ends e.quantifier (container.element x.1 e.display?)
      (answer (container.element x.1 e.display?) (cur.atElement container x)) = true := by
    rw [he, hfail]
    rfl
  rw [elementsTold, hfound, Option.getD_some, upTo, if_pos hends]
  exact List.append_nil _

theorem tells_overElements {container : Member} {e : Expansion} {body : Eval} {told : Member → Cursor → List Outline}
    (hblind : ∀ cur scope, Blind (body cur scope)) (hbody : ∀ cur scope, Tells (body cur scope) (told scope cur))
    (cur : Cursor) : Tells (c.overElements container e body cur)
      (c.elementsTold container e told (fun scope cur => verdict (body cur scope)) cur) := by
  rw [overElements_eq, elementsTold]
  cases cur.found? c.terms container.path e with
  | none => exact tells_pure _
  | some found =>
    show Tells (c.tally container e body cur found) _
    rw [tally_eq_map]
    refine Tells.map ?_ _
    -- the loop goes on with what it has counted so far
    generalize ({} : Tally) = t
    induction found generalizing t with
    | nil => exact tells_pure _
    | cons x xs ih =>
      rw [visitEach_cons, Option.getD_some, upTo, List.flatMap_cons]
      refine Tells.bind ((hbody _ _).map _) (blind_visit hblind x t) ?_
      rw [visit, verdict_map]
      cases hends : c.ends e.quantifier (container.element x.1 e.display?)
          (verdict (body (cur.atElement container x) (container.element x.1 e.display?))) with
      | true =>
        obtain ⟨t', ht⟩ := count_of_ends t hends
        rw [ht]
        exact tells_pure _
      | false =>
        obtain ⟨t', ht⟩ := count_of_not_ends t hends
        rw [ht]
        exact ih t'

end Chain

/-! ### Plans -/

namespace Plan

mutual

/-- What running a plan tells. -/
def told (c : Chain) : Plan → Cursor → List Outline
  | ask l, cur => c.askTold cur l
  | connect k plans, cur => toldBy c k plans cur
  | within b body, cur => c.branchTold cur b (told c body) (body.verdict c)
  | forEach container e body, cur =>
    c.branchTold cur (.elements e.quantifier container)
      (c.elementsTold container e (fun scope => told c (body scope)) fun scope => (body scope).verdict c)
      (elementsVerdict c container e body)

/-- What the plans of a connective tell, up to the one that decides. -/
def toldBy (c : Chain) (k : Connective) : List Plan → Cursor → List Outline
  | [], _ => []
  | p :: ps, cur => told c p cur ++ if k.decides (p.verdict c cur) then [] else toldBy c k ps cur

end

theorem toldBy_eq (c : Chain) (k : Connective) (plans : List Plan) (cur : Cursor) :
    toldBy c k plans cur = (upTo (fun p => k.decides (p.verdict c cur)) plans).flatMap (told c · cur) := by
  induction plans with
  | nil => rfl
  | cons p ps ih =>
    rw [toldBy, ih, upTo, List.flatMap_cons]
    split <;> rfl

variable {c : Chain} {front : List Layer}

theorem tells_run (h : c.Reports front) (p : Plan) (cur : Cursor) : Pass.Tells (p.run c cur) (p.told c cur) := by
  induction p generalizing cur with
  | ask l => exact h.tells_ask cur l
  | connect k plans ih =>
    rw [run, runs_eq_map, told, toldBy_eq]
    exact Pass.tells_connect k (fun p => p.blind_run c cur) fun p hp => ih p hp cur
  | within b body ih => exact h.tells_around (body.blind_run c) ih cur b
  | forEach container e body ih =>
    have hblind : ∀ cur scope, Pass.Blind ((body scope).run c cur) := fun cur scope => (body scope).blind_run c cur
    have hanswer : ∀ cur, Pass.verdict (c.overElements container e (fun cur scope => (body scope).run c cur) cur) =
        elementsVerdict c container e body cur := verdict_overElements container e body
    have helements : ∀ cur, Pass.Tells (c.overElements container e (fun cur scope => (body scope).run c cur) cur)
        (c.elementsTold container e (fun scope => told c (body scope)) (fun scope => (body scope).verdict c) cur) :=
      Chain.tells_overElements hblind fun cur scope => ih scope cur
    have haround := h.tells_around (Chain.blind_overElements hblind) helements cur (.elements e.quantifier container)
    simp only [hanswer] at haround
    exact haround

end Plan

/-! ### Whole passes -/

namespace Validator
variable (v : Validator) (o : Object) (f : Filter)

theorem reports_chain :
    (v.chain f).Reports (f.layers ++ (Layer.ofExistence? v.terms.settings.existence).toList) where
  layers := by rw [layers_chain, List.append_assoc]
  quiet := by
    refine List.forall_mem_append.2 ⟨?_, ?_⟩
    · cases f <;> simp [Filter.layers, Layer.isQuiet]
    · cases v.terms.settings.existence <;> simp [Layer.ofExistence?, Layer.isQuiet]

/-- What a pass tells. -/
def told : List Outline :=
  (v.rule.plan .root).told (v.chain f) (.start o)

/-- The outcome of a pass is the verdict of its plan with what the forest that it tells leaves. -/
theorem run_eq_report :
    v.run o f =
      { status := (v.rule.plan .root).verdict (v.chain f) (.start o)
        text := (Outline.report v.locale Outline.isWorded (v.told o f)).text
        failed := (Outline.report v.locale Outline.isWorded (v.told o f)).failed } := by
  have hrun : ∀ rec, (((v.chain f).evaluate v.rule o).run { reporter := { locale := v.locale } }).2 = rec →
      v.run o f = ⟨(v.run o f).status, rec.reporter.finish.text, rec.reporter.finish.failed⟩ := by
    rintro _ rfl
    rfl
  have hrec : (((v.chain f).evaluate v.rule o).run { reporter := { locale := v.locale } }).2 =
      Record.hear { reporter := { locale := v.locale } } (v.told o f) := by
    rw [Chain.evaluate, Rule.eval_eq_run]
    exact Plan.tells_run (v.reports_chain f) _ _ _
  rw [← status_run, ← Outline.finish_hearAll, hrun _ hrec]
  rfl

end Validator

end Conform
