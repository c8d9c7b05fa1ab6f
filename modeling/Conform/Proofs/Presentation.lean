import Conform.Proofs.Parallel

/-!
# What presentation leaves alone

Display names, messages and the locale decide how a report reads and nothing else. `Rule.plain` takes
names and messages out of a rule. A leaf without names takes the same route through the layers
(`Chain.route_plain`), a negation without names mentions the same places, and an explained rule tells
what its body tells inside one more frame, which is no negation; so a rule and its plain form give the
same answer and accuse the same members in the same order (`Rule.agrees_plain`).
-/

namespace Conform

/-! ### Names and messages taken out -/

namespace Member

def plain (m : Member) : Member :=
  { path := m.path }

variable {m m' : Member}

theorem plain_eq_iff : m.plain = m'.plain ↔ m.path = m'.path :=
  ⟨fun h => (Member.mk.inj h).1, fun h => by rw [plain, plain, h]⟩

theorem splitProperty_plain (m : Member) : m.plain.splitProperty = (m.splitProperty.1.plain, m.splitProperty.2) := by
  unfold splitProperty plain
  rcases Path.splitProperty m.path with ⟨p, _ | q⟩ <;> rfl

theorem splitProperty_congr (h : m.path = m'.path) :
    m.splitProperty.1.plain = m'.splitProperty.1.plain ∧ m.splitProperty.2 = m'.splitProperty.2 := by
  have hsplit : m.plain.splitProperty = m'.plain.splitProperty := by rw [plain_eq_iff.2 h]
  rw [splitProperty_plain, splitProperty_plain] at hsplit
  exact Prod.mk.inj hsplit

end Member

def Operand.plain : Operand → Operand
  | member m => member m.plain
  | value v => value v
  | sample o => sample o

namespace Rule

mutual

def plain : Rule → Rule
  | condition op operand => condition op operand.plain
  | property p op operand => property p op operand.plain
  | presence expected => presence expected
  | bind m body => bind m.plain (plain body)
  | group k rules => group k (plains rules)
  | elements e rules => elements e (plains rules)
  | explain _ body => plain body

def plains : List Rule → List Rule
  | [] => []
  | r :: rs => plain r :: plains rs

end

end Rule

namespace Leaf

def plain : Leaf → Leaf
  | check subject c => check subject { c with member := c.member.plain, operand := c.operand.plain }
  | presence m p? expected => presence m.plain p? expected

theorem path_plain (l : Leaf) : l.plain.member.path = l.member.path := by
  cases l <;> rfl

theorem operand_plain (l : Leaf) : l.plain.operand? = l.operand?.map Member.plain := by
  rcases l with ⟨subject, ⟨member, p?, op, operand⟩⟩ | _
  · cases operand <;> rfl
  · rfl

theorem compare_plain {scope scope' : Member} (h : scope.path = scope'.path) (p? : Option Property) (op : Operator)
    (operand : Operand) : (compare scope p? op operand).plain = (compare scope' p? op operand.plain).plain := by
  have hroot : scope.isRoot = scope'.isRoot := by rw [Member.isRoot, Member.isRoot, h]
  cases operand with
  | value v =>
    simp only [compare, Operand.plain, hroot]
    split <;> simp only [plain, Member.plain, h]
  | member m => simp only [compare, plain, Operand.plain, Member.plain, h]
  | sample o => simp only [compare, plain, Operand.plain, Member.plain, h]

end Leaf

/-! ### Leaves on their way -/

theorem Cursor.compare_congr {cur : Cursor} {r : Registry} {k k' : Check} (hleft : cur.left? r k = cur.left? r k')
    (hright : cur.right? r k = cur.right? r k') (hop : k.operator = k'.operator) :
    cur.compare r k = cur.compare r k' := by
  rw [compare, compare, hleft, hright, hop]

theorem Cursor.answer_plain (cur : Cursor) (r : Registry) (l : Leaf) : cur.answer r l.plain = cur.answer r l := by
  rcases l with ⟨subject, ⟨member, p?, op, operand⟩⟩ | ⟨m, p?, expected⟩
  · cases operand with
    | value | sample => rfl
    | member m =>
      have hright : cur.right? r ⟨member.plain, p?, op, .member m.plain⟩ =
          cur.right? r ⟨member, p?, op, .member m⟩ := by
        simp only [right?, m.splitProperty_plain]
        rfl
      exact compare_congr rfl hright rfl
  · rfl

namespace Route

def plain : Route → Route
  | settled s => settled s
  | asked cur l => asked cur l.plain

end Route

namespace Chain
variable (c : Chain)

/-- A question without names. -/
def plainly (q : Cursor × Leaf) : Cursor × Leaf :=
  (q.1, q.2.plain)

theorem operandMustExist_plain (cur : Cursor) (m : Member) :
    c.operandMustExist cur m.plain = plainly (c.operandMustExist cur m) := by
  unfold operandMustExist
  rw [Member.splitProperty_plain]
  rfl

theorem guarded_plain (abort : Bool) (cur : Cursor) (l : Leaf) :
    c.guarded abort cur l.plain = (c.guarded abort cur l).map plainly := by
  rcases l with ⟨subject, ⟨member, p?, op, operand⟩⟩ | ⟨m, p?, expected⟩
  · have hhas : cur.has c.registry member.plain p? = cur.has c.registry member p? := rfl
    simp only [guarded, Leaf.plain, hhas]
    split
    · split <;> rfl
    · cases operand with
      | value v => rfl
      | member m =>
        have hoperand : cur.hasOperand c.registry m.plain = cur.hasOperand c.registry m := rfl
        simp only [Operand.plain, hoperand]
        split
        · rfl
        · split
          · rw [operandMustExist_plain]; rfl
          · rfl
      | sample o =>
        simp only [Operand.plain]
        have hpath : member.plain.path = member.path := rfl
        rw [hpath]
        split <;> rfl
  · rfl

end Chain

theorem Layer.covers_plain (pattern : Path) (l : Leaf) : covers pattern l.plain = covers pattern l := by
  cases l <;> rfl

theorem Candidate.redirect?_plain (cand : Candidate) (cur : Cursor) (l : Leaf) :
    cand.redirect? cur l.plain = cand.redirect? cur l := by
  have hoperand : (l.operand?.map Member.plain).map (fun m => cand.holds m.path) =
      l.operand?.map fun m => cand.holds m.path := by
    rw [Option.map_map]
    rfl
  simp only [redirect?, l.path_plain, l.operand_plain, hoperand]

namespace Chain
variable {c : Chain} {layers : List Layer}

/-- Only layers of the caller's own could look at names. -/
theorem routeThrough_plain (hown : ∀ layer ∈ layers, layer.role ≠ .own) (cur : Cursor) (l : Leaf) :
    c.routeThrough layers cur l.plain = (c.routeThrough layers cur l).plain := by
  induction layers generalizing cur l with
  | nil => rfl
  | cons layer rest ih =>
    obtain ⟨hlayer, hrest⟩ := List.forall_mem_cons.1 hown
    cases layer with
    | recorder | handler => exact absurd rfl hlayer
    | reporting => exact ih hrest cur l
    | single pattern =>
      rw [routeThrough, routeThrough, Layer.covers_plain]
      split
      · exact ih hrest cur l
      · rfl
    | candidate cand =>
      rw [routeThrough, routeThrough, cand.redirect?_plain]
      cases cand.redirect? cur l with
      | none => rfl
      | some cur => exact ih hrest cur l
    | guard abort =>
      rw [routeThrough, routeThrough, guarded_plain]
      cases c.guarded abort cur l with
      | none => rfl
      | some q => exact ih hrest q.1 q.2

end Chain

/-! ### Whom a forest accuses -/

namespace Outline
variable {around around' : List FrameKind} {ts us ts' us' : List Outline} {s s' : Status}

theorem accusedOf_append (ts us : List Outline) :
    accusedOf around (ts ++ us) = accusedOf around ts ++ accusedOf around us := by
  induction ts with
  | nil => rfl
  | cons t ts ih => rw [List.cons_append, accusedOf, accusedOf, ih, List.append_assoc]

/-- The places of the members that leaves speak against, in order. -/
def blamed (around : List FrameKind) (ts : List Outline) : List Path :=
  (accusedOf around ts).map Member.path

theorem blamed_append (ts us : List Outline) : blamed around (ts ++ us) = blamed around ts ++ blamed around us := by
  rw [blamed, accusedOf_append, List.map_append, ← blamed, ← blamed]

/-- What a report lists depends on the places only. -/
theorem listed_eq (ms : List Member) :
    listed ms = (((ms.map Member.path).filter (!·.isEmpty)).map Path.text).eraseDups := by
  rw [listed, List.filter_map, List.map_map]
  rfl

/-- Inside as many negations the forests blame the same places. -/
def BlamesAs (ts us : List Outline) : Prop :=
  ∀ around around', around.count .not = around'.count .not → blamed around ts = blamed around' us

theorem blamesAs_nil : BlamesAs [] [] := fun _ _ _ => rfl

theorem BlamesAs.symm (h : BlamesAs ts us) : BlamesAs us ts := fun around around' hcount =>
  (h around' around hcount.symm).symm

theorem BlamesAs.trans {vs : List Outline} (h : BlamesAs ts us) (h' : BlamesAs us vs) : BlamesAs ts vs :=
  fun around around' hcount => (h around around rfl).trans (h' around around' hcount)

theorem BlamesAs.append (h : BlamesAs ts us) (h' : BlamesAs ts' us') : BlamesAs (ts ++ ts') (us ++ us') := by
  intro around around' hcount
  rw [blamed_append, blamed_append, h around around' hcount, h' around around' hcount]

theorem blamesAs_leaf {l l' : Leaf} (h : l.member.path = l'.member.path) : BlamesAs [.leaf s l] [.leaf s l'] := by
  intro around around' hcount
  have haccuses : accuses around s = accuses around' s := by rw [accuses, accuses, hcount]
  simp only [blamed, accusedOf, accused, haccuses, List.append_nil]
  split
  · rw [List.map_singleton, List.map_singleton, h]
  · rfl

theorem BlamesAs.frame (h : BlamesAs ts us) (kind : FrameKind) : BlamesAs [.frame kind ts s] [.frame kind us s'] := by
  intro around around' hcount
  have hinside : (kind :: around).count .not = (kind :: around').count .not := by
    rw [List.count_cons, List.count_cons, hcount]
  simp only [blamed, accusedOf, accused, List.append_nil]
  exact h _ _ hinside

theorem congruence_blamesAs : Congruence BlamesAs where
  nil := blamesAs_nil
  append := BlamesAs.append
  frame h kind _ := h.frame kind

theorem BlamesAs.explained (h : BlamesAs ts us) (message : String) :
    BlamesAs [.frame (.explained message) ts s] us := by
  intro around around' hcount
  have hinside : (.explained message :: around).count .not = around'.count .not := by
    rw [List.count_cons_of_ne (by simp), hcount]
  simp only [blamed, accusedOf, accused, List.append_nil]
  exact h _ _ hinside

end Outline

namespace Chain
variable {c : Chain} {front layers : List Layer} {cur : Cursor} {l l' : Leaf}

/-- Asking leaves that differ in names gives one answer and blames one place. -/
theorem Reports.ask_plain (h : c.Reports front) (hown : ∀ layer ∈ c.layers, layer.role ≠ .own)
    (hplain : l.plain = l'.plain) (cur : Cursor) :
    Pass.verdict (c.ask cur l) = Pass.verdict (c.ask cur l') ∧
      Outline.BlamesAs (c.askTold cur l) (c.askTold cur l') := by
  have hroute : (c.route cur l).plain = (c.route cur l').plain := by
    rw [route, route, ← routeThrough_plain hown, ← routeThrough_plain hown, hplain]
  rw [h.verdict_ask, h.verdict_ask, askTold, askTold]
  rcases hl : c.route cur l with s | ⟨cur₁, l₁⟩ <;> rcases hl' : c.route cur l' with s' | ⟨cur₂, l₂⟩ <;>
    rw [hl, hl'] at hroute
  · cases hroute
    exact ⟨rfl, Outline.blamesAs_nil⟩
  · cases hroute
  · cases hroute
  · obtain ⟨rfl, hleaf⟩ := Route.asked.inj hroute
    have hanswer : cur₁.answer c.registry l₁ = cur₁.answer c.registry l₂ := by
      rw [← cur₁.answer_plain, hleaf, cur₁.answer_plain]
    refine ⟨hanswer, ?_⟩
    rw [Route.told, Route.told, hanswer]
    exact Outline.blamesAs_leaf (by rw [← l₁.path_plain, hleaf, l₂.path_plain])

theorem Reports.askIfAny_plain (h : c.Reports front) (hown : ∀ layer ∈ c.layers, layer.role ≠ .own)
    {q? q'? : Option (Cursor × Leaf)} (hplain : q?.map plainly = q'?.map plainly) :
    c.AsksAlike Outline.BlamesAs q? q'? := by
  rcases q? with _ | ⟨cur, l⟩ <;> rcases q'? with _ | ⟨cur', l'⟩
  · exact ⟨rfl, Outline.blamesAs_nil⟩
  · cases hplain
  · cases hplain
  · obtain ⟨rfl, hleaf⟩ := Prod.mk.inj (Option.some.inj hplain)
    exact h.ask_plain hown hleaf cur

end Chain

/-! ### What a negation mentions -/

namespace Mentions

/-- The same places are mentioned in the same order. -/
def Same (ms ms' : Mentions) : Prop :=
  ms.members.map Member.plain = ms'.members.map Member.plain ∧
    ms.operands.map Member.plain = ms'.operands.map Member.plain

variable {m m' : Member} {ms ms' : Mentions} {members members' : List Member}

theorem note_plain (m : Member) (members : List Member) :
    (note m members).map Member.plain = note m.plain (members.map Member.plain) := by
  have hlisted : (members.map Member.plain).any (Path.same ·.path m.plain.path) =
      members.any (Path.same ·.path m.path) := by
    rw [List.any_map]
    rfl
  have hroot : m.plain.isRoot = m.isRoot := rfl
  simp only [note, hlisted, hroot]
  split
  · rfl
  · rw [List.map_append, List.map_singleton]

theorem Same.member (h : Same ms ms') (hm : m.path = m'.path) : Same (ms.member m) (ms'.member m') := by
  refine ⟨?_, h.2⟩
  show (note m ms.members).map Member.plain = (note m' ms'.members).map Member.plain
  rw [note_plain, note_plain, h.1, Member.plain_eq_iff.2 hm]

theorem Same.operand (h : Same ms ms') (operand : Operand) : Same (ms.operand operand) (ms'.operand operand.plain) := by
  cases operand with
  | value | sample => exact h
  | member m =>
    refine ⟨h.1, ?_⟩
    simp only [Mentions.operand, Operand.plain]
    rw [note_plain, note_plain, h.2]
    rfl

mutual

theorem same_rule : ∀ (r : Rule) {scope scope' : Member} {ms ms' : Mentions}, Same ms ms' → scope.path = scope'.path →
    Same (rule scope ms r) (rule scope' ms' r.plain)
  | .condition op operand, _, _, _, _, h, hs => (h.member hs).operand operand
  | .property p op operand, scope, scope', _, _, h, hs => by
    have hextend : (scope.extend [.property p]).path = (scope'.extend [.property p]).path :=
      congrArg (· ++ _) hs
    exact (h.member hextend).operand operand
  | .presence _, _, _, _, _, h, _ => h
  | .bind m body, scope, scope', ms, ms', h, hs => by
    have hextend : ∀ p, (scope.extend p).path = (scope'.extend p).path := fun p => congrArg (· ++ p) hs
    have hpath : m.plain.path = m.path := rfl
    rw [Rule.plain, rule, rule, hpath]
    cases Path.firstExpansion? m.path with
    | some cut => exact h.member (hextend _)
    | none => exact same_rule body h (hextend _)
  | .group _ rs, _, _, _, _, h, hs => same_rules rs h hs
  | .elements _ _, _, _, _, _, h, hs => h.member hs
  | .explain _ body, _, _, _, _, h, hs => same_rule body h hs

theorem same_rules : ∀ (rs : List Rule) {scope scope' : Member} {ms ms' : Mentions}, Same ms ms' →
    scope.path = scope'.path → Same (rules scope ms rs) (rules scope' ms' (Rule.plains rs))
  | [], _, _, _, _, h, _ => h
  | r :: rs, _, _, _, _, h, hs => same_rules rs (same_rule r h hs) hs

end

end Mentions

/-! ### Branches -/

/-- The branches differ in names at most. -/
inductive Branch.Matches : Branch → Branch → Prop
  | group {k : Connective} {scope scope' : Member} {rules rules' : List Rule}
    (h : Mentions.Same (Mentions.ofRules scope rules) (Mentions.ofRules scope' rules')) :
    Matches (.group k scope rules) (.group k scope' rules')
  | elements {q : Quantifier} {container container' : Member} (h : container.path = container'.path) :
    Matches (.elements q container) (.elements q container')

theorem Branch.Matches.beside {b b' : Branch} (h : b.Matches b') : b.Beside Mentions.Same b' := by
  cases h with
  | group h => exact .group _ h
  | elements h => exact .elements _ h

namespace Chain
variable {c : Chain} {front layers : List Layer} {cur : Cursor} {b b' : Branch} {scope scope' : Member}
  {rules rules' : List Rule}

theorem missingMember?_plain (c : Chain) (cur : Cursor) (members : List Member) :
    (c.missingMember? cur members).map plainly = (c.missingMember? cur (members.map Member.plain)).map plainly := by
  have hsplit : (members.map Member.plain).map Member.splitProperty =
      (members.map Member.splitProperty).map fun m => (m.1.plain, m.2) := by
    rw [List.map_map, List.map_map]
    exact List.map_congr_left fun m _ => m.splitProperty_plain
  unfold missingMember?
  rw [hsplit]
  generalize members.map Member.splitProperty = splits
  rw [List.find?_map, Option.map_map, Option.map_map, Option.map_map]
  rfl

theorem missingOperand?_plain (c : Chain) (cur : Cursor) (operands : List Member) :
    (c.missingOperand? cur operands).map plainly = (c.missingOperand? cur (operands.map Member.plain)).map plainly := by
  unfold missingOperand?
  rw [List.find?_map, Option.map_map, Option.map_map, Option.map_map]
  have hplain : ∀ m, plainly (c.operandMustExist cur m) = plainly (c.operandMustExist cur m.plain) := fun m => by
    rw [operandMustExist_plain]
    rfl
  exact congrArg (Option.map · _) (funext hplain)

namespace Reports
variable (h : c.Reports front) (hown : ∀ layer ∈ c.layers, layer.role ≠ .own)
include h hown

theorem precheck_plain (hsame : Mentions.Same (Mentions.ofRules scope rules) (Mentions.ofRules scope' rules'))
    (cur : Cursor) : Pass.verdict (c.precheck cur scope rules) = Pass.verdict (c.precheck cur scope' rules') ∧
      Outline.BlamesAs (c.precheckTold cur scope rules) (c.precheckTold cur scope' rules') := by
  have hmembers : (c.missingMember? cur (Mentions.ofRules scope rules).members).map plainly =
      (c.missingMember? cur (Mentions.ofRules scope' rules').members).map plainly := by
    rw [missingMember?_plain, hsame.1, ← missingMember?_plain]
  have hoperands : (c.missingOperand? cur (Mentions.ofRules scope rules).operands).map plainly =
      (c.missingOperand? cur (Mentions.ofRules scope' rules').operands).map plainly := by
    rw [missingOperand?_plain, hsame.2, ← missingOperand?_plain]
  exact precheck_beside Outline.congruence_blamesAs (h.askIfAny_plain hown hmembers) (h.askIfAny_plain hown hoperands)

theorem branch_plain (hb : b.Matches b') (cur : Cursor) :
    c.enters? cur b = c.enters? cur b' ∧ Outline.BlamesAs (c.prologue cur b) (c.prologue cur b') :=
  through_beside Outline.congruence_blamesAs (fun hsame => h.precheck_plain hown hsame _) hb.beside cur

end Reports

theorem enters?_explained (hown : ∀ layer ∈ layers, layer.role ≠ .own) (cur : Cursor) (scope : Member)
    (message : String) : c.entersThrough layers cur (.explained scope message) = some cur ∧
      c.prologueThrough layers cur (.explained scope message) = [] := by
  induction layers with
  | nil => exact ⟨rfl, rfl⟩
  | cons layer rest ih =>
    obtain ⟨hlayer, hrest⟩ := List.forall_mem_cons.1 hown
    cases layer with
    | recorder | handler => exact absurd rfl hlayer
    | reporting | single | candidate => exact ih hrest
    | guard abort => cases abort <;> exact ih hrest

end Chain

/-! ### Plans -/

namespace Plan
variable {c : Chain} {front : List Layer}

/-- The plans give the same answers and accuse the same members. -/
def Agrees (c : Chain) (p q : Plan) : Prop :=
  ∀ cur, p.verdict c cur = q.verdict c cur ∧ Outline.BlamesAs (p.told c cur) (q.told c cur)

variable {p q r : Plan} (h : c.Reports front) (hown : ∀ layer ∈ c.layers, layer.role ≠ .own)

theorem Agrees.symm (hp : p.Agrees c q) : q.Agrees c p := fun cur => ⟨(hp cur).1.symm, (hp cur).2.symm⟩

theorem Agrees.trans (hp : p.Agrees c q) (hq : q.Agrees c r) : p.Agrees c r := fun cur =>
  ⟨(hp cur).1.trans (hq cur).1, (hp cur).2.trans (hq cur).2⟩

theorem agrees_connect {plans plans' : List Plan} (hplans : List.Forall₂ (Agrees c) plans plans') (k : Connective) :
    (connect k plans).Agrees c (connect k plans') := fun cur =>
  agreesAt_connect Outline.congruence_blamesAs (agreeUpTo_of_forall₂ (hplans.imp fun _ _ hp => hp cur))

include h hown

theorem agrees_ask {l l' : Leaf} (hplain : l.plain = l'.plain) : (ask l).Agrees c (ask l') := fun cur =>
  h.ask_plain hown hplain cur

theorem agrees_within {b b' : Branch} (hb : b.Matches b') (hp : p.Agrees c q) :
    (within b p).Agrees c (within b' q) := fun cur =>
  have := h.handlerFree
  agreesAt_within Outline.congruence_blamesAs hb.beside.frame_eq (h.branch_plain hown hb cur) fun entry _ => hp entry

omit h in
theorem agrees_explained (scope : Member) (message : String) (hp : p.Agrees c q) :
    (within (.explained scope message) p).Agrees c q := by
  have := Chain.HandlerFree.of_own hown
  intro cur
  obtain ⟨henters, hprologue⟩ := Chain.enters?_explained hown cur scope message
  rw [verdict_within, Chain.enters?, henters]
  refine ⟨(hp cur).1, ?_⟩
  rw [told, Chain.branchTold, Chain.prologue, Chain.enters?, henters, hprologue]
  exact (hp cur).2.explained message

theorem agrees_forEach {container container' : Member} {e : Expansion} {body body' : Member → Plan}
    (hpath : container.path = container'.path)
    (hbody : ∀ scope scope', scope.path = scope'.path → (body scope).Agrees c (body' scope')) :
    (forEach container e body).Agrees c (forEach container' e body') := fun cur =>
  agreesAt_forEach Outline.congruence_blamesAs hown hpath rfl (h.branch_plain hown (.elements hpath) cur)
    (fun _ _ => by rw [hpath]) fun _ _ x _ => hbody _ _ (congrArg (· ++ x.1) hpath) _

theorem agrees_along {body body' : Member → Plan}
    (hbody : ∀ scope scope', scope.path = scope'.path → (body scope).Agrees c (body' scope')) (path : Path)
    (scope scope' : Member) (hpath : scope.path = scope'.path) :
    (along body path scope).Agrees c (along body' path scope') := by
  induction path generalizing scope scope' with
  | nil => exact hbody scope scope' hpath
  | cons k path ih =>
    have hextend : (scope.extend [k]).path = (scope'.extend [k]).path := congrArg (· ++ [k]) hpath
    cases k with
    | expand e => exact agrees_forEach h hown hpath ih
    | name | index | property => exact ih _ _ hextend

end Plan

/-! ### Rules -/

namespace Rule
variable {c : Chain} {front : List Layer}

mutual

theorem agrees_plain (h : c.Reports front) (hown : ∀ layer ∈ c.layers, layer.role ≠ .own) :
    ∀ (r : Rule) (scope scope' : Member), scope.path = scope'.path → (r.plan scope).Agrees c (r.plain.plan scope')
  | condition op operand, _, _, hs => Plan.agrees_ask h hown (Leaf.compare_plain hs ..)
  | property p op operand, _, _, hs => Plan.agrees_ask h hown (Leaf.compare_plain hs ..)
  | presence expected, scope, scope', hs => by
    obtain ⟨howner, hproperty⟩ := Member.splitProperty_congr hs
    refine Plan.agrees_ask h hown ?_
    rw [Leaf.plain, Leaf.plain, howner, hproperty]
  | bind m body, scope, scope', hs => by
    rw [Rule.plain, plan, plan]
    exact Plan.agrees_along h hown (agrees_plain h hown body) m.path (scope.adoptNames m) (scope'.adoptNames m.plain) hs
  | group k rules, scope, scope', hs => by
    have hmentions : Mentions.Same (Mentions.ofRules scope rules) (Mentions.ofRules scope' (plains rules)) :=
      Mentions.same_rules rules ⟨rfl, rfl⟩ hs
    have hplans := agree_plains h hown rules scope scope' hs
    exact Plan.agrees_within h hown (.group hmentions) (Plan.agrees_connect hplans k)
  | elements e rules, scope, scope', hs => by
    refine Plan.agrees_forEach h hown hs fun scope scope' hs => ?_
    exact Plan.agrees_connect (agree_plains h hown rules scope scope' hs) .and
  | explain message body, scope, scope', hs =>
    Plan.agrees_explained hown scope message (agrees_plain h hown body scope scope' hs)

theorem agree_plains (h : c.Reports front) (hown : ∀ layer ∈ c.layers, layer.role ≠ .own) :
    ∀ (rs : List Rule) (scope scope' : Member), scope.path = scope'.path →
      List.Forall₂ (Plan.Agrees c) (Rule.plans rs scope) (Rule.plans (Rule.plains rs) scope')
  | [], _, _, _ => .nil
  | r :: rs, scope, scope', hs => .cons (agrees_plain h hown r scope scope' hs) (agree_plains h hown rs scope scope' hs)

end

end Rule

theorem Validator.own_chain (v : Validator) (f : Filter) : ∀ layer ∈ (v.chain f).layers, layer.role ≠ .own := by
  rw [layers_chain]
  cases f <;> cases v.terms.settings.existence <;> simp [Filter.layers, Layer.ofExistence?, Layer.role]

/-- Rules that differ only in display names and in where they are explained give, in any two locales,
the same answer and the same list of failing members, whatever the pass. -/
theorem Validator.run_plain (v : Validator) (rule : Rule) (locale : Locale) (h : rule.plain = v.rule.plain)
    (o : Object) (f : Filter) :
    let w : Validator := { v with rule, locale }
    (w.run o f).status = (v.run o f).status ∧ (w.run o f).failed = (v.run o f).failed := by
  intro w
  have hplain := fun (r : Rule) => r.agrees_plain (v.reports_chain f) (v.own_chain f) .root .root rfl
  have hagrees : (rule.plan .root).Agrees (v.chain f) (v.rule.plan .root) :=
    (h ▸ hplain rule).trans (hplain v.rule).symm
  obtain ⟨hstatus, hblame⟩ := hagrees (.start o)
  have hfailed : Outline.listed (Outline.accusedOf [] (w.told o f)) =
      Outline.listed (Outline.accusedOf [] (v.told o f)) := by
    rw [Outline.listed_eq, Outline.listed_eq]
    exact congrArg (fun places : List Path => ((places.filter (!·.isEmpty)).map Path.text).eraseDups) (hblame [] [] rfl)
  rw [run_eq_report, run_eq_report]
  exact ⟨hstatus, hfailed⟩

/-- The names of two members are dropped, the message is moved, and the other locale shouts. -/
theorem Validator.run_plain_limits :
    let limit : Member := Member.named { path := [.name "limit"] } "the limit" .empty
    let price : Member := Member.named { path := [.name "prices", .expand (.each .any)] } "a price" .empty
    let above : Rule := .condition (.compare .gt) (.member limit)
    let v : Validator :=
      { rule := .group .and [.group .not [.explain "too expensive" (.bind price above)], .presence true]
        terms := { settings := { existence := .abort } } }
    let rule : Rule := .explain "check the prices" (.group .and
      [.group .not [.bind { path := [.name "prices", .expand (.each .any)] }
        (.condition (.compare .gt) (.member { path := [.name "limit"] }))], .presence true])
    let locale : Locale := { name := "loud", translate? := fun text _ => some ⟨text ++ "!", .empty⟩ }
    let w : Validator := { v with rule, locale }
    let o : Object := .json (.object [("limit", .int 5), ("prices", .list [.int 3, .int 9])])
    rule.plain = v.rule.plain ∧ (v.validate o).text = "NOT too expensive" ∧ (w.validate o).text = "check the prices!" ∧
      (w.run o .everything).status = .fail ∧ (w.run o .everything).failed = ["prices.0", "prices.1"] := by
  intro limit price above v rule locale w o
  have hplain : rule.plain = v.rule.plain := rfl
  have hrun : (v.run o .everything).status = .fail ∧ (v.run o .everything).failed = ["prices.0", "prices.1"] := by decide
  have h := run_plain v rule locale hplain o .everything
  exact ⟨hplain, by decide, by decide, h.1.trans hrun.1, h.2.trans hrun.2⟩

end Conform
