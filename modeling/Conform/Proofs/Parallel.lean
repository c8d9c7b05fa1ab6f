import Conform.Proofs.Telling

/-!
# Plans side by side

Two plans may be about the same places and yet differ, in how members are shown or in how a container is
run through. `Plan.AgreesAt` compares them as they run from one cursor, for any comparison of forests that
goes part by part (`Outline.Congruence`): what a connective or a demand answers and tells is settled by
the rules and the elements that it comes to (`Plan.agreesAt_connect`, `Plan.agreesAt_forEach`).
-/

namespace Conform

namespace Outline

/-- Forests are compared part by part. -/
structure Congruence (rel : List Outline → List Outline → Prop) : Prop where
  nil : rel [] []
  append : ∀ {ts us ts' us'}, rel ts us → rel ts' us' → rel (ts ++ ts') (us ++ us')
  frame : ∀ {ts us}, rel ts us → ∀ kind s, rel [.frame kind ts s] [.frame kind us s]

end Outline

/-- The branches are of one kind and at the same place; what negations mention is related. -/
inductive Branch.Beside (mention : Mentions → Mentions → Prop) : Branch → Branch → Prop
  | group (k : Connective) {scope scope' : Member} {rules rules' : List Rule}
    (h : mention (Mentions.ofRules scope rules) (Mentions.ofRules scope' rules')) :
    Beside mention (.group k scope rules) (.group k scope' rules')
  | elements (q : Quantifier) {container container' : Member} (h : container.path = container'.path) :
    Beside mention (.elements q container) (.elements q container')
  | explained (message : String) (scope scope' : Member) :
    Beside mention (.explained scope message) (.explained scope' message)

theorem Branch.Beside.frame_eq {mention : Mentions → Mentions → Prop} {b b' : Branch} (h : b.Beside mention b') :
    b.frame = b'.frame := by
  cases h with
  | group k => cases k <;> rfl
  | elements q => cases q <;> rfl
  | explained => rfl

namespace Connective

/-- An answer that decides is the answer, turned round for a negation. -/
theorem fold_of_decides {k : Connective} {s : Status} {ss : List Status} (hs : s ∈ ss) (h : k.decides s = true) :
    k.fold ss = if k = .not then s.negate else s := by
  have hany : ∀ p : Status → Bool, p s = true → ss.any p = true := fun p hp => List.any_eq_true.2 ⟨s, hs, hp⟩
  cases k with
  | and =>
    cases eq_of_beq h
    exact if_pos (hany _ rfl)
  | or =>
    cases eq_of_beq h
    exact if_pos (hany _ rfl)
  | not =>
    cases eq_of_beq h
    exact congrArg Status.negate (if_pos (hany _ rfl))

/-- Only the answers up to the one that decides matter. -/
theorem fold_upTo (k : Connective) (ss : List Status) : k.fold (upTo k.decides ss) = k.fold ss := by
  by_cases h : ∃ s ∈ ss, k.decides s = true
  · obtain ⟨s, hs, hdecides⟩ := exists_mem_upTo h
    rw [fold_of_decides hs hdecides, fold_of_decides (mem_of_mem_upTo hs) hdecides]
  · rw [upTo_eq_self fun s hs => Bool.eq_false_iff.2 fun hdecides => h ⟨s, hs, hdecides⟩]

end Connective

namespace Chain

/-- The questions, if there are any, are answered alike, and what they tell compares. -/
def AsksAlike (c : Chain) (rel : List Outline → List Outline → Prop) (q? q'? : Option (Cursor × Leaf)) : Prop :=
  Pass.verdict (c.askIfAny q?) = Pass.verdict (c.askIfAny q'?) ∧ rel (c.askIfAnyTold q?) (c.askIfAnyTold q'?)

variable {c : Chain} {rel : List Outline → List Outline → Prop} (hrel : Outline.Congruence rel)

/-! ### Branches -/

section Branches
variable {layers : List Layer} {mention : Mentions → Mentions → Prop} {b b' : Branch} {scope scope' : Member}
  {rules rules' : List Rule} {cur : Cursor}
include hrel

theorem precheck_beside
    (hmember : c.AsksAlike rel (c.missingMember? cur (Mentions.ofRules scope rules).members)
      (c.missingMember? cur (Mentions.ofRules scope' rules').members))
    (hoperand : c.AsksAlike rel (c.missingOperand? cur (Mentions.ofRules scope rules).operands)
      (c.missingOperand? cur (Mentions.ofRules scope' rules').operands)) :
    Pass.verdict (c.precheck cur scope rules) = Pass.verdict (c.precheck cur scope' rules') ∧
      rel (c.precheckTold cur scope rules) (c.precheckTold cur scope' rules') := by
  rw [verdict_precheck, verdict_precheck, precheckTold, precheckTold, hmember.1, hoperand.1]
  refine ⟨rfl, hrel.append hmember.2 ?_⟩
  split
  · exact hoperand.2
  · exact hrel.nil

theorem through_beside
    (hprecheck : ∀ {cur scope scope' rules rules'}, mention (Mentions.ofRules scope rules) (Mentions.ofRules scope' rules') →
      Pass.verdict (c.precheck cur scope rules) = Pass.verdict (c.precheck cur scope' rules') ∧
        rel (c.precheckTold cur scope rules) (c.precheckTold cur scope' rules'))
    (hb : b.Beside mention b') (cur : Cursor) :
    c.entersThrough layers cur b = c.entersThrough layers cur b' ∧
      rel (c.prologueThrough layers cur b) (c.prologueThrough layers cur b') := by
  induction layers generalizing cur with
  | nil => exact ⟨rfl, hrel.nil⟩
  | cons layer rest ih =>
    cases layer with
    | recorder | handler | reporting | single => exact ih cur
    | candidate cand =>
      cases hb with
      | group | explained => exact ih cur
      | elements q hpath =>
        rw [entersThrough, entersThrough, prologueThrough, prologueThrough, hpath]
        exact ih _
    | guard abort =>
      cases hb with
      | elements | explained => cases abort <;> exact ih cur
      | group k hmention =>
        cases abort with
        | false => exact ih cur
        | true =>
          cases k with
          | and | or => exact ih cur
          | not =>
            obtain ⟨hverdict, htold⟩ := hprecheck hmention
            rw [entersThrough, entersThrough, prologueThrough, prologueThrough, hverdict]
            split
            · exact ⟨rfl, hrel.append htold hrel.nil⟩
            · exact ⟨(ih cur).1, hrel.append htold (ih cur).2⟩

theorem branch_beside (hframe : b.frame = b'.frame)
    (hbranch : c.enters? cur b = c.enters? cur b' ∧ rel (c.prologue cur b) (c.prologue cur b'))
    {told told' : Cursor → List Outline} {answer answer' : Cursor → Status}
    (hinside : ∀ entry, c.enters? cur b = some entry →
      answer entry = answer' entry ∧ rel (told entry) (told' entry)) :
    ((c.enters? cur b).map answer).getD .fail = ((c.enters? cur b').map answer').getD .fail ∧
      rel (c.branchTold cur b told answer) (c.branchTold cur b' told' answer') := by
  obtain ⟨henters, hprologue⟩ := hbranch
  rw [branchTold, branchTold, ← henters]
  cases hentry : c.enters? cur b with
  | none => exact ⟨rfl, hrel.append hprologue hrel.nil⟩
  | some entry =>
    obtain ⟨hanswer, htold⟩ := hinside entry hentry
    refine ⟨hanswer, hrel.append hprologue ?_⟩
    rw [Option.map_some, Option.map_some, hframe, hanswer]
    exact hrel.frame htold _ _

end Branches

/-! ### Elements -/

section Elements
variable (hown : ∀ layer ∈ c.layers, layer.role ≠ .own) {m m' : Member}
include hown

theorem passes_beside (h : m.path = m'.path) (s : Status) : c.passes m s = c.passes m' s := by
  have hpasses : c.layers.findSome? (Layer.passes? m s) = c.layers.findSome? (Layer.passes? m' s) := by
    generalize c.layers = layers at hown
    induction layers with
    | nil => rfl
    | cons layer rest ih =>
      obtain ⟨hlayer, hrest⟩ := List.forall_mem_cons.1 hown
      have hsame : Layer.passes? m s layer = Layer.passes? m' s layer := by
        cases layer with
        | handler => exact absurd rfl hlayer
        | candidate cand => rw [Layer.passes?, Layer.passes?, h]
        | recorder | single | guard | reporting => rfl
      rw [List.findSome?_cons, List.findSome?_cons, hsame, ih hrest]
  rw [passes, passes, hpasses]

theorem count_beside (h : m.path = m'.path) (q : Quantifier) : c.count q m = c.count q m' := by
  funext t s
  cases q with
  | all => rfl
  | any => rw [count, count, passes_beside hown h]

theorem ends_beside (h : m.path = m'.path) (q : Quantifier) (s : Status) : c.ends q m s = c.ends q m' s := by
  cases q with
  | all => rfl
  | any => exact passes_beside hown h s

end Elements

/-- The elements that a demand comes to, up to the one that ends it. -/
def elementsMet (c : Chain) (container : Member) (e : Expansion) (answer : Member → Cursor → Status) (cur : Cursor) :
    List (Path × Object) :=
  upTo (fun x => c.ends e.quantifier (container.element x.1 e.display?)
      (answer (container.element x.1 e.display?) (cur.atElement container x)))
    ((cur.found? c.terms container.path e).getD [])

theorem verdict_tally_beside (hown : ∀ layer ∈ c.layers, layer.role ≠ .own) {container container' : Member}
    (hpath : container.path = container'.path) {e e' : Expansion} (hq : e.quantifier = e'.quantifier)
    {body body' : Eval} {cur : Cursor} (hblind : ∀ cur scope, Pass.Blind (body cur scope))
    (hblind' : ∀ cur scope, Pass.Blind (body' cur scope)) (found : List (Path × Object))
    (hbody : ∀ x ∈ upTo (fun x => c.ends e.quantifier (container.element x.1 e.display?)
        (Pass.verdict (body (cur.atElement container x) (container.element x.1 e.display?)))) found,
      Pass.verdict (body (cur.atElement container x) (container.element x.1 e.display?)) =
        Pass.verdict (body' (cur.atElement container' x) (container'.element x.1 e'.display?))) :
    Pass.verdict (c.tally container e body cur found) = Pass.verdict (c.tally container' e' body' cur found) := by
  have helement : ∀ s, (container.element s e.display?).path = (container'.element s e'.display?).path := fun s =>
    congrArg (· ++ s) hpath
  rw [tally_eq_map, tally_eq_map, Pass.verdict_map, Pass.verdict_map, hq]
  refine congrArg (fun step : ForInStep Tally => step.value.conclude e'.quantifier c.settings.allEmpty) ?_
  -- the loops go on with what they have counted so far
  generalize ({} : Tally) = t
  induction found generalizing t with
  | nil => rfl
  | cons x xs ih =>
    have hvisit : Pass.verdict (c.visit container e body cur x t) =
        Pass.verdict (c.visit container' e' body' cur x t) := by
      rw [visit, visit, Pass.verdict_map, Pass.verdict_map, count_beside hown (helement x.1), hq,
        hbody x (mem_upTo_cons_self ..)]
    rw [Pass.verdict_visitEach_cons fun x _ t => blind_visit hblind x t,
      Pass.verdict_visitEach_cons fun x _ t => blind_visit hblind' x t, ← hvisit, visit, Pass.verdict_map]
    cases hends : c.ends e.quantifier (container.element x.1 e.display?)
        (Pass.verdict (body (cur.atElement container x) (container.element x.1 e.display?))) with
    | true =>
      obtain ⟨t', ht⟩ := count_of_ends t hends
      rw [ht]
    | false =>
      obtain ⟨t', ht⟩ := count_of_not_ends t hends
      rw [ht]
      exact ih (fun y hy => hbody y (mem_upTo_cons hends hy)) t'

end Chain

/-! ### Plans -/

/-- From the cursor the plans give the same answer and tell forests that compare. -/
def Plan.AgreesAt (c : Chain) (rel : List Outline → List Outline → Prop) (cur : Cursor) (p q : Plan) : Prop :=
  p.verdict c cur = q.verdict c cur ∧ rel (p.told c cur) (q.told c cur)

/-- The plans agree one by one, up to the one that decides. -/
inductive Plan.AgreeUpTo (c : Chain) (rel : List Outline → List Outline → Prop) (k : Connective) (cur : Cursor) :
    List Plan → List Plan → Prop
  | nil : AgreeUpTo c rel k cur [] []
  | cons {p q : Plan} {ps qs : List Plan} (hp : p.AgreesAt c rel cur q)
    (hps : k.decides (p.verdict c cur) = false → AgreeUpTo c rel k cur ps qs) :
    AgreeUpTo c rel k cur (p :: ps) (q :: qs)

namespace Plan
variable {c : Chain} {rel : List Outline → List Outline → Prop} (hrel : Outline.Congruence rel) {cur : Cursor}

theorem agreeUpTo_of_forall₂ {k : Connective} {ps qs : List Plan} (h : List.Forall₂ (AgreesAt c rel cur) ps qs) :
    AgreeUpTo c rel k cur ps qs := by
  induction h with
  | nil => exact .nil
  | cons hp _ ih => exact .cons hp fun _ => ih

theorem AgreeUpTo.fold_eq {k : Connective} {ps qs : List Plan} (h : AgreeUpTo c rel k cur ps qs) :
    k.fold (ps.map (verdict c · cur)) = k.fold (qs.map (verdict c · cur)) := by
  rw [← k.fold_upTo, ← k.fold_upTo (qs.map _)]
  refine congrArg k.fold ?_
  induction h with
  | nil => rfl
  | cons hp _ ih =>
    rw [List.map_cons, List.map_cons, upTo, upTo, ← hp.1]
    split
    · rfl
    next hgoes => rw [ih (Bool.eq_false_iff.2 hgoes)]

include hrel

/-- A connective is settled by the plans up to the one that decides. -/
theorem agreesAt_connect {k : Connective} {ps qs : List Plan} (h : AgreeUpTo c rel k cur ps qs) :
    (connect k ps).AgreesAt c rel cur (connect k qs) := by
  constructor
  · rw [verdict_connect, verdict_connect, h.fold_eq]
  · rw [told, told]
    induction h with
    | nil => exact hrel.nil
    | cons hp _ ih =>
      rw [toldBy, toldBy, ← hp.1]
      refine hrel.append hp.2 ?_
      split
      · exact hrel.nil
      next hgoes => exact ih (Bool.eq_false_iff.2 hgoes)

theorem agreesAt_within [c.HandlerFree] {b b' : Branch} {p q : Plan} (hframe : b.frame = b'.frame)
    (hbranch : c.enters? cur b = c.enters? cur b' ∧ rel (c.prologue cur b) (c.prologue cur b'))
    (hinside : ∀ entry, c.enters? cur b = some entry → p.AgreesAt c rel entry q) :
    (within b p).AgreesAt c rel cur (within b' q) := by
  rw [AgreesAt, verdict_within, verdict_within]
  exact Chain.branch_beside hrel hframe hbranch hinside

section Elements
variable {container container' : Member} {e e' : Expansion} {body body' : Member → Plan}

theorem elements_beside (hown : ∀ layer ∈ c.layers, layer.role ≠ .own) (hpath : container.path = container'.path)
    (hq : e.quantifier = e'.quantifier)
    (hfound : cur.found? c.terms container.path e = cur.found? c.terms container'.path e')
    (hbody : ∀ x ∈ c.elementsMet container e (fun scope => (body scope).verdict c) cur,
      (body (container.element x.1 e.display?)).AgreesAt c rel (cur.atElement container x)
        (body' (container'.element x.1 e'.display?))) :
    elementsVerdict c container e body cur = elementsVerdict c container' e' body' cur ∧
      rel (c.elementsTold container e (fun scope => told c (body scope)) (fun scope => (body scope).verdict c) cur)
        (c.elementsTold container' e' (fun scope => told c (body' scope)) (fun scope => (body' scope).verdict c)
          cur) := by
  have hat : cur.atElement container = cur.atElement container' := by
    funext x
    rw [Cursor.atElement, Cursor.atElement, hpath]
  have helement : ∀ s, (container.element s e.display?).path = (container'.element s e'.display?).path := fun s =>
    congrArg (· ++ s) hpath
  unfold Chain.elementsMet at hbody
  rw [hat] at hbody
  rw [elementsVerdict, elementsVerdict, Chain.elementsTold, Chain.elementsTold, ← hfound, hat, ← hq]
  cases hf : cur.found? c.terms container.path e with
  | none => exact ⟨rfl, hrel.nil⟩
  | some found =>
    rw [hf, Option.getD_some] at hbody
    constructor
    · refine Chain.verdict_tally_beside hown hpath hq (fun cur scope => (body scope).blind_run c cur)
        (fun cur scope => (body' scope).blind_run c cur) found ?_
      rw [hat]
      exact fun x hx => (hbody x hx).1
    · rw [Option.getD_some]
      clear hf hfound
      induction found with
      | nil => exact hrel.nil
      | cons x xs ih =>
        obtain ⟨hverdict, htold⟩ := hbody x (mem_upTo_cons_self ..)
        rw [upTo, upTo, List.flatMap_cons, List.flatMap_cons, ← hverdict, Chain.ends_beside hown (helement x.1)]
        refine hrel.append htold ?_
        split
        · exact hrel.nil
        next hgoes =>
          refine ih fun y hy => hbody y (mem_upTo_cons ?_ hy)
          rw [Chain.ends_beside hown (helement x.1)]
          exact Bool.eq_false_iff.2 hgoes

theorem agreesAt_forEach (hown : ∀ layer ∈ c.layers, layer.role ≠ .own) (hpath : container.path = container'.path)
    (hq : e.quantifier = e'.quantifier)
    (hbranch : c.enters? cur (.elements e.quantifier container) = c.enters? cur (.elements e.quantifier container') ∧
      rel (c.prologue cur (.elements e.quantifier container)) (c.prologue cur (.elements e.quantifier container')))
    (hfound : ∀ entry, c.enters? cur (.elements e.quantifier container) = some entry →
      entry.found? c.terms container.path e = entry.found? c.terms container'.path e')
    (hbody : ∀ entry, c.enters? cur (.elements e.quantifier container) = some entry →
      ∀ x ∈ c.elementsMet container e (fun scope => (body scope).verdict c) entry,
        (body (container.element x.1 e.display?)).AgreesAt c rel (entry.atElement container x)
          (body' (container'.element x.1 e'.display?))) :
    (forEach container e body).AgreesAt c rel cur (forEach container' e' body') := by
  have := Chain.HandlerFree.of_own hown
  rw [AgreesAt, verdict_forEach, verdict_forEach, told, told, ← hq]
  have hframe : (Branch.elements e.quantifier container).frame = (Branch.elements e.quantifier container').frame := by
    cases e.quantifier <;> rfl
  refine Chain.branch_beside hrel hframe hbranch fun entry hentry => ?_
  exact elements_beside hrel hown hpath hq (hfound entry hentry) (hbody entry hentry)

end Elements

end Plan

end Conform
