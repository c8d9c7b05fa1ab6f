import Conform.Proofs.Verdicts

/-!
# Passes through several chains

Some properties compare the passes of a rule through different chains, or speak of what any pass
leaves in its record. Such a property is shown once for what the layers do: if it composes
(`Pass.Composes`), holds of leaves and is handed on by branches (`Chain.Carry`), then it holds of
whatever is asked of the chains (`Chain.Carry.query`).
-/

namespace Conform

/-- What can be asked of a chain. -/
inductive Query where
  | rule (r : Rule) (scope : Member)
  | leaf (l : Leaf)
  /-- A demand whose quantifier is given apart from the expansion. -/
  | elements (q : Quantifier) (container : Member) (e : Expansion) (rest : Path) (rules : List Rule)

def Query.run (c : Chain) : Query → Cursor → Pass Status
  | rule r scope, cur => r.eval c cur scope
  | leaf l, cur => c.ask cur l
  | elements q container e rest rules, cur => c.require q container e rest rules cur

variable {ι α β σ : Type} {P : ∀ α : Type, (ι → Pass α) → Prop}

/-! ### Composition -/

/-- A property of families of passes that is kept when one pass follows another. -/
structure Pass.Composes (P : ∀ α : Type, (ι → Pass α) → Prop) : Prop where
  pure : ∀ {α : Type} (a : α), P α fun _ => Pure.pure a
  bind : ∀ {α β : Type} {x : ι → Pass α} {f : ι → α → Pass β},
    P α x → (∀ a, P β (f · a)) → P β fun i => x i >>= f i

namespace Pass.Composes

theorem map (hP : Composes P) (g : α → β) {x : ι → Pass α} (hx : P α x) : P β fun i => g <$> x i := by
  simp only [map_eq_pure_bind]
  exact hP.bind hx fun a => hP.pure (g a)

theorem allAfter (hP : Composes P) {runs : List (ι → Pass Status)} (h : ∀ run ∈ runs, P _ run)
    (seen succeeded : Bool) : P _ fun i => Status.allAfter seen succeeded (runs.map (· i)) := by
  induction runs generalizing seen succeeded with
  | nil => exact hP.pure _
  | cons run runs ih =>
    obtain ⟨hrun, hruns⟩ := List.forall_mem_cons.1 h
    refine hP.bind hrun fun s => ?_
    cases s with
    | fail => exact hP.pure _
    | success | ignore => exact ih hruns ..

theorem anyAfter (hP : Composes P) {runs : List (ι → Pass Status)} (h : ∀ run ∈ runs, P _ run)
    (seen failed : Bool) : P _ fun i => Status.anyAfter seen failed (runs.map (· i)) := by
  induction runs generalizing seen failed with
  | nil => exact hP.pure _
  | cons run runs ih =>
    obtain ⟨hrun, hruns⟩ := List.forall_mem_cons.1 h
    refine hP.bind hrun fun s => ?_
    cases s with
    | success => exact hP.pure _
    | fail | ignore => exact ih hruns ..

theorem connect (hP : Composes P) (k : Connective) {runs : List (ι → Pass Status)} (h : ∀ run ∈ runs, P _ run) :
    P _ fun i => Chain.connect k (runs.map (· i)) := by
  cases k with
  | and => exact hP.allAfter h ..
  | or => exact hP.anyAfter h ..
  | not => exact hP.map _ (hP.allAfter h ..)

theorem handling (hP : Composes P) {perform : ι → α → Pass Status} (h : ∀ a, P _ (perform · a)) (k : Handling α) :
    P _ fun i => k.run (perform i) := by
  induction k with
  | answer s => exact hP.pure s
  | call a next ih => exact hP.bind (h a) ih

theorem visitEach (hP : Composes P) {visit : ι → α → σ → Pass (ForInStep σ)} {xs : List α}
    (h : ∀ x ∈ xs, ∀ s, P _ (visit · x s)) (s : σ) : P _ fun i => Conform.visitEach (visit i) xs s := by
  induction xs generalizing s with
  | nil => exact hP.pure _
  | cons x xs ih =>
    obtain ⟨hx, hxs⟩ := List.forall_mem_cons.1 h
    simp only [visitEach_cons]
    refine hP.bind (hx s) fun step => ?_
    cases step with
    | done s => exact hP.pure _
    | yield s => exact ih hxs s

end Pass.Composes

/-! ### Rules -/

/-- Chains of the same terms that decide alike which elements pass, where a property holds of every
leaf, and of every branch whose rules have it. -/
structure Chain.Carry (P : ∀ α : Type, (ι → Pass α) → Prop) (layers : ι → List Layer) (t : Terms) : Prop where
  composes : Pass.Composes P
  passes : ∃ c : Chain, ∀ i m s, (Chain.mk (layers i) t).passes m s = c.passes m s
  ask : ∀ cur l, P _ fun i => (Chain.mk (layers i) t).ask cur l
  around : ∀ cur b {body : ι → Cursor → Pass Status}, (∀ cur, P _ (body · cur)) →
    P _ fun i => (Chain.mk (layers i) t).around cur b (body i)

namespace Chain.Carry
variable {layers : ι → List Layer} {t : Terms}

theorem overElements (h : Carry P layers t) {body : ι → Eval} (hbody : ∀ cur scope, P _ (body · cur scope))
    (container : Member) (e : Expansion) (cur : Cursor) :
    P _ fun i => (Chain.mk (layers i) t).overElements container e (body i) cur := by
  obtain ⟨c, hpasses⟩ := h.passes
  have hcount : ∀ i, (Chain.mk (layers i) t).count = c.count := by
    intro i
    funext q scope tally s
    simp only [count, hpasses]
  simp only [overElements_eq]
  cases cur.found? t container.path e with
  | none => exact h.composes.pure _
  | some found =>
    simp only [tally_eq_map]
    refine h.composes.map (fun step : ForInStep Tally => step.value.conclude e.quantifier t.settings.allEmpty)
      (h.composes.visitEach (fun x _ tally => ?_) _)
    simp only [Chain.visit, hcount]
    exact h.composes.map _ (hbody ..)

theorem demand (h : Carry P layers t) {body : ι → Eval} (hbody : ∀ cur scope, P _ (body · cur scope))
    (q : Quantifier) (container : Member) (e : Expansion) (cur : Cursor) :
    P _ fun i => (Chain.mk (layers i) t).demand q container e (body i) cur :=
  h.around cur _ fun cur => h.overElements hbody container e cur

theorem plan (h : Carry P layers t) (p : Plan) (cur : Cursor) :
    P _ fun i => p.run (Chain.mk (layers i) t) cur := by
  induction p generalizing cur with
  | ask l => exact h.ask cur l
  | connect k plans ih =>
    have hruns : ∀ i, Plan.runs (Chain.mk (layers i) t) plans cur =
        (plans.map fun p i => p.run (Chain.mk (layers i) t) cur).map (· i) := by
      intro i
      rw [Plan.runs_eq_map, List.map_map]
      rfl
    simp only [Plan.run, hruns]
    refine h.composes.connect k fun run hrun => ?_
    obtain ⟨p, hp, rfl⟩ := List.mem_map.1 hrun
    exact ih p hp cur
  | within b body ih => exact h.around cur b ih
  | forEach container e body ih => exact h.demand (fun cur scope => ih scope cur) _ container e cur

theorem rule (h : Carry P layers t) (r : Rule) (cur : Cursor) (scope : Member) :
    P _ fun i => r.eval (Chain.mk (layers i) t) cur scope := by
  simp only [Rule.eval_eq_run]
  exact h.plan _ cur

theorem query (h : Carry P layers t) (q : Query) (cur : Cursor) :
    P _ fun i => q.run (Chain.mk (layers i) t) cur := by
  cases q with
  | rule r scope => exact h.rule r cur scope
  | leaf l => exact h.ask cur l
  | elements q container e rest rules =>
    refine h.demand (fun cur scope => ?_) q container e cur
    have hruns : ∀ i, rules.map (fun r => (Chain.mk (layers i) t).descend (r.eval (Chain.mk (layers i) t)) rest cur scope) =
        (rules.map fun r i => (Plan.along r.plan rest scope).run (Chain.mk (layers i) t) cur).map (· i) := by
      intro i
      rw [List.map_map]
      refine List.map_congr_left fun r _ => ?_
      have heval : r.eval (Chain.mk (layers i) t) = fun cur scope => (r.plan scope).run _ cur :=
        funext fun cur => funext fun scope => r.eval_eq_run _ cur scope
      rw [heval, ← Plan.run_along]
      rfl
    simp only [hruns]
    refine h.composes.allAfter (fun run hrun => ?_) _ _
    obtain ⟨r, -, rfl⟩ := List.mem_map.1 hrun
    exact h.plan _ cur

end Chain.Carry

/-! ### Layers -/

/-- The end of a chain, with the layer in front of it or without. -/
def Layer.beforeIf (layer : Layer) (back : List Layer) (present : Bool) : List Layer :=
  bif present then layer :: back else back

/-- A property that is also kept by what recorders and reporters do around a call. -/
structure Pass.Layered (P : ∀ α : Type, (ι → Pass α) → Prop) : Prop extends Pass.Composes P where
  trace : ∀ t, P _ fun _ => Pass.trace t
  leaf : ∀ s l, P _ fun _ => Pass.report (·.leaf s l)
  frame : ∀ kind {x : ι → Pass Status}, P _ x → P _ fun i => do
    Pass.report (·.enter kind)
    let s ← x i
    Pass.report (·.leave s)
    Pure.pure s

namespace Pass.Layered
variable {layers rest : ι → List Layer} {t : Terms}

theorem ask_cons (hP : Layered P) (layer : Layer)
    (h : ∀ cur l, P _ fun i => (Chain.mk (layers i) t).askThrough (rest i) cur l) (cur : Cursor) (l : Leaf) :
    P _ fun i => (Chain.mk (layers i) t).askThrough (layer :: rest i) cur l := by
  cases layer with
  | recorder name =>
    exact hP.bind (hP.trace _) fun _ => hP.bind (h cur l) fun s => hP.bind (hP.trace _) fun _ => hP.pure s
  | reporting => exact hP.bind (h cur l) fun s => hP.bind (hP.leaf s l) fun _ => hP.pure s
  | handler k => exact hP.handling (fun q : Cursor × Leaf => h q.1 q.2) (k.ask t cur l)
  | single pattern =>
    simp only [Chain.askThrough]
    split
    · exact h cur l
    · exact hP.pure _
  | candidate cand =>
    simp only [Chain.askThrough]
    cases cand.redirect? cur l with
    | none => exact hP.pure _
    | some cur => exact h cur l
  | guard abort =>
    have hguard : ∀ i, (Chain.mk (layers i) t).guarded abort cur l = (Chain.mk [] t).guarded abort cur l := fun _ => rfl
    simp only [Chain.askThrough, hguard]
    cases (Chain.mk [] t).guarded abort cur l with
    | none => exact hP.pure _
    | some q => exact h q.1 q.2

theorem precheck (hP : Layered P) (hask : ∀ cur l, P _ fun i => (Chain.mk (layers i) t).ask cur l) (cur : Cursor)
    (scope : Member) (rules : List Rule) : P _ fun i => (Chain.mk (layers i) t).precheck cur scope rules := by
  have hifAny : ∀ question?, P _ fun i => (Chain.mk (layers i) t).askIfAny question? := by
    intro question?
    cases question? with
    | none => exact hP.pure _
    | some q => exact hask q.1 q.2
  refine hP.bind (hifAny ((Chain.mk [] t).missingMember? cur (Mentions.ofRules scope rules).members)) fun s => ?_
  cases s with
  | success => exact hifAny ((Chain.mk [] t).missingOperand? cur (Mentions.ofRules scope rules).operands)
  | fail | ignore => exact hP.pure _

theorem around_cons (hP : Layered P) (hask : ∀ cur l, P _ fun i => (Chain.mk (layers i) t).ask cur l) (layer : Layer)
    (hrest : ∀ cur l, P _ fun i => (Chain.mk (layers i) t).askThrough (rest i) cur l) {body : ι → Cursor → Pass Status}
    (h : ∀ cur b, P _ fun i => (Chain.mk (layers i) t).aroundThrough (rest i) cur b (body i)) (cur : Cursor)
    (b : Branch) : P _ fun i => (Chain.mk (layers i) t).aroundThrough (layer :: rest i) cur b (body i) := by
  cases layer with
  | recorder name =>
    exact hP.bind (hP.trace _) fun _ => hP.bind (h cur b) fun s => hP.bind (hP.trace _) fun _ => hP.pure s
  | reporting => exact hP.frame b.frame (h cur b)
  | handler k =>
    simp only [Chain.aroundThrough]
    refine hP.handling (fun errand => ?_) _
    cases errand with
    | follow cur => exact h cur b
    | reword cur message => exact h cur (b.reword message)
    | ask cur l => exact hrest cur l
    | restart cur l => exact hask cur l
  | single => exact h cur b
  | candidate cand => cases b <;> exact h _ _
  | guard abort =>
    cases abort with
    | false => exact h cur b
    | true =>
      cases b with
      | elements | explained => exact h cur _
      | group k scope rules =>
        cases k with
        | and | or => exact h cur _
        | not =>
          refine hP.bind (hP.precheck hask cur scope rules) fun s => ?_
          cases s with
          | fail => exact hP.pure _
          | success | ignore => exact h cur _

theorem ask_append (hP : Layered P) (front : List Layer)
    (h : ∀ cur l, P _ fun i => (Chain.mk (layers i) t).askThrough (rest i) cur l) (cur : Cursor) (l : Leaf) :
    P _ fun i => (Chain.mk (layers i) t).askThrough (front ++ rest i) cur l := by
  induction front generalizing cur l with
  | nil => exact h cur l
  | cons layer front ih => exact hP.ask_cons layer ih cur l

theorem around_append (hP : Layered P) (hask : ∀ cur l, P _ fun i => (Chain.mk (layers i) t).ask cur l)
    (front : List Layer) (hrest : ∀ cur l, P _ fun i => (Chain.mk (layers i) t).askThrough (rest i) cur l)
    {body : ι → Cursor → Pass Status}
    (h : ∀ cur b, P _ fun i => (Chain.mk (layers i) t).aroundThrough (rest i) cur b (body i)) (cur : Cursor)
    (b : Branch) : P _ fun i => (Chain.mk (layers i) t).aroundThrough (front ++ rest i) cur b (body i) := by
  induction front generalizing cur b with
  | nil => exact h cur b
  | cons layer front ih => exact hP.around_cons hask layer (hP.ask_append front hrest) ih cur b

theorem askThrough (hP : Layered P) (common : List Layer) (cur : Cursor) (l : Leaf) :
    P _ fun i => (Chain.mk (layers i) t).askThrough common cur l := by
  induction common generalizing cur l with
  | nil => exact hP.pure (cur.answer t.registry l)
  | cons layer common ih => exact hP.ask_cons layer ih cur l

theorem aroundThrough (hP : Layered P) (hask : ∀ cur l, P _ fun i => (Chain.mk (layers i) t).ask cur l)
    (common : List Layer) {body : ι → Cursor → Pass Status} (hbody : ∀ cur, P _ (body · cur)) (cur : Cursor)
    (b : Branch) : P _ fun i => (Chain.mk (layers i) t).aroundThrough common cur b (body i) := by
  induction common generalizing cur b with
  | nil => exact hbody cur
  | cons layer common ih => exact hP.around_cons hask layer (hP.askThrough common) ih cur b

/-- Anywhere in a chain, it is enough to look at the layer that one chain has more. -/
theorem carry_insert {P : ∀ α : Type, (Bool → Pass α) → Prop} (hP : Layered P) {layer : Layer} (front back : List Layer)
    (t : Terms) (hpasses : ∀ m s, layer.passes? m s = none)
    (hask : ∀ {c : Bool → Chain} {l : Leaf} cur, P _ (fun present => (c present).askThrough back cur l) →
      P _ fun present => (c present).askThrough (layer.beforeIf back present) cur l)
    (haround : ∀ {c : Bool → Chain} {body : Bool → Cursor → Pass Status} cur b,
      P _ (fun present => (c present).aroundThrough back cur b (body present)) →
      P _ fun present => (c present).aroundThrough (layer.beforeIf back present) cur b (body present)) :
    Chain.Carry P (fun present => front ++ layer.beforeIf back present) t := by
  have hrest : ∀ cur l, P _ fun present =>
      (Chain.mk (front ++ layer.beforeIf back present) t).askThrough (layer.beforeIf back present) cur l :=
    fun cur l => hask cur (hP.askThrough back cur l)
  have hleaf : ∀ cur l, P _ fun present => (Chain.mk (front ++ layer.beforeIf back present) t).ask cur l :=
    hP.ask_append front hrest
  refine { composes := hP.toComposes, passes := ⟨Chain.mk (front ++ back) t, ?_⟩, ask := hleaf, around := ?_ }
  · intro present m s
    cases present with
    | false => rfl
    | true => simp [Chain.passes, Layer.beforeIf, List.findSome?_append, hpasses]
  · intro cur b body hbody
    refine hP.around_append hleaf front hrest (fun cur b => ?_) cur b
    exact haround cur b (hP.aroundThrough hleaf back hbody cur b)

end Pass.Layered

/-! ### Passes that are the same -/

/-- A pass of the first chain is the same as that of the second. -/
def Pass.Same (α : Type) (x : Bool → Pass α) : Prop :=
  x true = x false

theorem Pass.layered_same : Layered Same where
  pure _ := rfl
  bind := by
    intro α β x f hx hf
    show x true >>= f true = x false >>= f false
    rw [show x true = x false from hx, show f true = f false from funext hf]
  trace _ := rfl
  leaf _ _ := rfl
  frame := by
    intro kind x hx
    show (do report (·.enter kind); let s ← x true; report (·.leave s); Pure.pure s) = _
    rw [show x true = x false from hx]

/-- How a leaf is asked through given layers depends on the terms of a chain only. -/
theorem Chain.askThrough_congr {c c' : Chain} (h : c.terms = c'.terms) (layers : List Layer) (cur : Cursor) (l : Leaf) :
    c.askThrough layers cur l = c'.askThrough layers cur l := by
  obtain ⟨own, t⟩ := c
  obtain ⟨own', t'⟩ := c'
  cases h
  have hsame : Pass.Same _ fun first => (Chain.mk (bif first then own else own') t).askThrough layers cur l :=
    Pass.layered_same.askThrough layers cur l
  exact hsame

end Conform
