import Conform.Proofs.Likeness
import Conform.Proofs.Presentation

/-!
# Keys that count in place of keys that run through elements

A rule may run through the positions below the size of a container where another one runs through its
elements (`Rule.Counted`). `Validator.applied` lists the objects to which a pass with the one applies
keys that the other exchanges. If all of them are arrays, the passes come out alike
(`Validator.run_counted`), but for the path of a missing operand, which is listed as it is written.
-/

namespace Conform

/-! ### What a negation mentions -/

namespace Mentions
variable {allowed : Bool} {m m' : Member} {ms ms' : Mentions} {members members' : List Member}

/-- The same places are mentioned, however they are shown. -/
structure Counted (ms ms' : Mentions) : Prop where
  members : List.Forall₂ (Member.Counted false) ms.members ms'.members
  operands : ms.operands = ms'.operands

theorem note_counted (hm : m.Counted false m') (h : List.Forall₂ (Member.Counted false) members members') :
    List.Forall₂ (Member.Counted false) (note m members) (note m' members') := by
  have hlisted : members.any (Path.same ·.path m.path) = members'.any (Path.same ·.path m'.path) := by
    rw [hm.path_eq]
    induction h with
    | nil => rfl
    | cons hn _ ih => rw [List.any_cons, List.any_cons, hn.path_eq, ih]
  rw [note, note, hm.isRoot_eq, hlisted]
  split
  · exact h
  · exact List.rel_append h (.cons hm .nil)

namespace Counted

theorem member (h : ms.Counted ms') (hm : m.Counted false m') : (ms.member m).Counted (ms'.member m') :=
  ⟨note_counted hm h.members, h.operands⟩

theorem operand {operand operand' : Operand} (h : ms.Counted ms') (ho : operand.Counted allowed operand') :
    (ms.operand operand).Counted (ms'.operand operand') := by
  cases ho with
  | value | sample => exact h
  | member hm =>
    refine ⟨h.members, ?_⟩
    simp only [Mentions.operand, hm.path.take_firstExpansion?, h.operands]

mutual

theorem rule : ∀ (r : Rule) {r' : Rule} {scope scope' : Member} {ms ms' : Mentions}, r.Counted allowed r' →
    scope.Counted false scope' → ms.Counted ms' → (Mentions.rule scope ms r).Counted (Mentions.rule scope' ms' r')
  | .condition .., _, _, _, _, _, .condition _ ho, hs, h => (h.member hs).operand ho
  | .property p .., _, _, _, _, _, .property _ _ ho, hs, h =>
    (h.member (hs.extend (.refl false [.property p]))).operand ho
  | .presence _, _, _, _, _, _, .presence _, _, h => h
  | .bind m body, _, _, _, _, _, .bind hm hbody, hs, h => by
    have htake := hm.path.take_firstExpansion?
    rw [Mentions.rule, Mentions.rule, ← hm.path.firstExpansion?]
    rw [← hm.path.firstExpansion?] at htake
    cases hcut : m.path.firstExpansion? with
    | some cut =>
      rw [hcut, Option.getD_some, Option.getD_some] at htake
      dsimp only
      rw [htake]
      exact h.member (hs.extend (.refl false _))
    | none =>
      rw [hcut, Option.getD_none, Option.getD_none, List.take_length, List.take_length] at htake
      dsimp only
      rw [htake]
      exact rule body hbody (hs.extend (.refl false _)) h
  | .group _ rs, _, _, _, _, _, .group _ hrs, hs, h => by
    rw [Mentions.rule, Mentions.rule]
    exact rules rs hrs hs h
  | .elements .., _, _, _, _, _, .elements .., hs, h => h.member hs
  | .explain _ body, _, _, _, _, _, .explain _ hbody, hs, h => by
    rw [Mentions.rule, Mentions.rule]
    exact rule body hbody hs h

theorem rules : ∀ (rs : List Rule) {rs' : List Rule} {scope scope' : Member} {ms ms' : Mentions},
    List.Forall₂ (Rule.Counted allowed) rs rs' → scope.Counted false scope' → ms.Counted ms' →
      (Mentions.rules scope ms rs).Counted (Mentions.rules scope' ms' rs')
  | [], _, _, _, _, _, .nil, _, h => h
  | r :: rs, _, _, _, _, _, .cons hr hrs, hs, h => (rules rs hrs hs (rule r hr hs h) :)

end

theorem ofRules {rs rs' : List Rule} {scope scope' : Member} (h : List.Forall₂ (Rule.Counted allowed) rs rs')
    (hs : scope.Counted false scope') : (ofRules scope rs).Counted (Mentions.ofRules scope' rs') :=
  rules rs h hs ⟨.nil, rfl⟩

end Counted

end Mentions

/-! ### Leaves on their way -/

theorem Member.Counted.weaken {allowed asked : Bool} {m m' : Member} (h : m.Counted allowed m')
    (hasked : allowed = true → asked = true) : m.Counted asked m' := by
  cases allowed with
  | false => exact h.of_kept
  | true => exact hasked rfl ▸ h

namespace Leaf.Counted
variable {allowed asked : Bool} {l l' : Leaf}

theorem path (h : l.Counted allowed asked l') : l.member.path.Counted asked l'.member.path := by
  cases h with
  | check _ _ _ hm _ => exact hm.of_kept.path
  | presence _ _ hm => exact hm.path

theorem property?_eq (h : l.Counted allowed asked l') : l.property? = l'.property? := by
  cases h <;> rfl

theorem operand? (h : l.Counted allowed asked l') : Option.Rel (Member.Counted allowed) l.operand? l'.operand? := by
  cases h with
  | check _ _ _ _ ho =>
    cases ho with
    | value | sample => exact .none
    | member hm => exact .some hm
  | presence => exact .none

theorem covers_eq (h : l.Counted allowed asked l') (pattern : Path) : Layer.covers pattern l = Layer.covers pattern l' := by
  rw [Layer.covers, Layer.covers, h.property?_eq, h.path.covers]
  cases l'.property? with
  | none => rfl
  | some p =>
    rw [Option.map_some, Option.map_some, (h.path.append (.refl asked [.property p])).covers]

theorem redirect?_eq (h : l.Counted allowed asked l') (cand : Candidate) (cur : Cursor) :
    cand.redirect? cur l = cand.redirect? cur l' := by
  have hmember : cand.holds l.member.path = cand.holds l'.member.path := h.path.covers cand.path
  have hoperand : (l.operand?.map fun m => cand.holds m.path) = l'.operand?.map fun m => cand.holds m.path := by
    have hrel := h.operand?
    generalize l.operand? = m? at hrel ⊢
    generalize l'.operand? = m'? at hrel ⊢
    cases hrel with
    | none => rfl
    | some hm => exact congrArg some (hm.path.covers cand.path)
  simp only [Candidate.redirect?, hmember, hoperand]

end Leaf.Counted

theorem Cursor.answer_counted {allowed asked : Bool} {l l' : Leaf} {cur : Cursor} (h : l.Counted allowed asked l')
    (harrays : ∀ x ∈ cur.applied .standard l.member l'.member, x.isArray = true) :
    cur.answer .standard l = cur.answer .standard l' := by
  cases h with
  | presence p? expected hm =>
    rw [answer, answer]
    exact congrArg (fun found => Status.ofBool (found == expected)) (has_counted hm.path harrays p?)
  | @check m m' operand operand' subject p? op hm ho =>
    have hright : cur.right? .standard ⟨m, p?, op, operand⟩ = cur.right? .standard ⟨m', p?, op, operand'⟩ := by
      cases ho with
      | value => rfl
      | sample => rw [right?_sample _ _ rfl, right?_sample _ _ rfl, hm.path_eq]
      | member ho =>
        obtain ⟨howner, hproperty⟩ := ho.splitProperty
        rw [right?_member _ _ rfl, right?_member _ _ rfl, sees?_counted howner.path, hproperty]
    refine compare_congr ?_ hright rfl
    rw [left?_eq, left?_eq, hm.path_eq]

namespace Chain
variable {c : Chain} {allowed asked : Bool} {cur : Cursor} {m m' : Member} {l l' : Leaf}

/-- A leaf in the place of another one, to be asked from the same cursor. What it is may depend on
whether the keys that are counted are applied to arrays. -/
def Replaces (allowed asked : Bool) (q q' : Cursor × Leaf) : Prop :=
  q.1 = q'.1 ∧ ((∀ x ∈ q.1.applied .standard q.2.member q'.2.member, x.isArray = true) → q.2.Counted allowed asked q'.2)

theorem mustExist_counted (hm : m.Counted false m') (p? : Option Property) :
    c.mustExist cur m' p? = .presence m' (c.missingProperty? cur m p?) true := by
  rw [mustExist, missingProperty?, missingProperty?, cur.has_path _ hm.path_eq]

theorem replaces_mustExist (hm : m.Counted false m') (p? : Option Property) :
    Replaces allowed asked (cur, c.mustExist cur m p?) (cur, c.mustExist cur m' p?) := by
  rw [mustExist_counted hm]
  exact ⟨rfl, fun _ => .presence _ true hm.of_kept⟩

theorem replaces_operandMustExist (hstd : c.registry = .standard) (hm : m.Counted allowed m')
    (hasked : allowed = true → asked = true) :
    Replaces allowed asked (c.operandMustExist cur m) (c.operandMustExist cur m') := by
  obtain ⟨howner, hproperty⟩ := hm.splitProperty
  rw [operandMustExist, operandMustExist, mustExist, mustExist, missingProperty?, missingProperty?, hstd, ← hproperty]
  refine ⟨rfl, fun harrays => ?_⟩
  -- the property is named only if its owner is found, which is asked along the counted keys
  rw [Cursor.has_counted howner.path harrays]
  exact .presence _ true (howner.weaken hasked)

theorem guarded_counted {abort : Bool} (hstd : c.registry = .standard)
    (hasked : abort = true → allowed = true → asked = true) (h : l.Counted allowed asked l') (cur : Cursor) :
    Option.Rel (Replaces allowed asked) (c.guarded abort cur l) (c.guarded abort cur l') := by
  have hasis : Option.Rel (Replaces allowed asked) (some (cur, l)) (some (cur, l')) := .some ⟨rfl, fun _ => h⟩
  cases h with
  | presence => exact hasis
  | @check m m' operand operand' subject p? op hm ho =>
    have hhas : cur.has c.registry m p? = cur.has c.registry m' p? := cur.has_path _ hm.path_eq p?
    simp only [guarded, ← hhas]
    cases cur.has c.registry m p? with
    | false =>
      cases abort with
      | false => exact .none
      | true => exact .some (replaces_mustExist hm p?)
    | true =>
      cases ho with
      | value v => exact hasis
      | sample o =>
        simp only [← hm.path_eq]
        cases (c.registry.find? o m.path).isSome with
        | false => exact .none
        | true => exact hasis
      | @member other other' ho =>
        have hoperand : cur.hasOperand c.registry other = cur.hasOperand c.registry other' := by
          rw [Cursor.hasOperand_eq, Cursor.hasOperand_eq, Cursor.sees?_counted ho.path]
        simp only [← hoperand]
        cases cur.hasOperand c.registry other with
        | true => exact hasis
        | false =>
          cases abort with
          | false => exact .none
          | true => exact .some (replaces_operandMustExist hstd ho (hasked rfl))

end Chain

/-! ### Routes -/

namespace Route
variable {allowed asked : Bool}

/-- The objects to which the first question applies a key that the second one counts. -/
def applied (r : Registry) : Route → Route → List Object
  | .asked cur l, .asked _ l' => cur.applied r l.member l'.member
  | _, _ => []

/-- The answer is the same, and leaves that are alike are told. -/
def Alike (allowed asked : Bool) (route route' : Route) : Prop :=
  route.status .standard = route'.status .standard ∧
    Outline.Alike (Leaf.Counted allowed asked) (route.told .standard) (route'.told .standard)

theorem alike_settled (s : Status) : (settled s).Alike allowed asked (settled s) :=
  ⟨rfl, .nil⟩

theorem alike_asked {q q' : Cursor × Leaf} (h : Chain.Replaces allowed asked q q')
    (harrays : ∀ x ∈ (Route.asked q.1 q.2).applied .standard (Route.asked q'.1 q'.2), x.isArray = true) :
    (Route.asked q.1 q.2).Alike allowed asked (Route.asked q'.1 q'.2) := by
  obtain ⟨cur, l⟩ := q
  obtain ⟨cur', l'⟩ := q'
  obtain ⟨rfl, hl⟩ := h
  have hanswer := Cursor.answer_counted (hl harrays) harrays
  refine ⟨hanswer, ?_⟩
  rw [told, told, hanswer]
  exact .leaf _ (hl harrays) .nil

end Route

namespace Chain
variable {c : Chain} {allowed asked : Bool} {cur : Cursor} {m m' : Member} {l l' : Leaf}

/-- The objects to which asking the first leaf applies a key that the second leaf counts. -/
def askApplied (c : Chain) (cur : Cursor) (l l' : Leaf) : List Object :=
  (c.route cur l).applied c.registry (c.route cur l')

theorem routeThrough_guard_counted {abort : Bool} (hstd : c.registry = .standard)
    (hasked : abort = true → allowed = true → asked = true) (h : l.Counted allowed asked l')
    (harrays : ∀ x ∈ (c.routeThrough [.guard abort, .reporting] cur l).applied .standard
      (c.routeThrough [.guard abort, .reporting] cur l'), x.isArray = true) :
    (c.routeThrough [.guard abort, .reporting] cur l).Alike allowed asked
      (c.routeThrough [.guard abort, .reporting] cur l') := by
  have hguard := guarded_counted hstd hasked h cur
  unfold routeThrough at harrays ⊢
  generalize c.guarded abort cur l = q? at hguard harrays ⊢
  generalize c.guarded abort cur l' = q'? at hguard harrays ⊢
  cases hguard with
  | none => exact Route.alike_settled _
  | some hq => exact Route.alike_asked hq harrays

theorem routeThrough_presence (c : Chain) (layers : List Layer) (cur : Cursor) (m : Member) (p? : Option Property)
    (expected : Bool) :
    (∃ s, c.routeThrough layers cur (.presence m p? expected) = .settled s) ∨
      ∃ cur', c.routeThrough layers cur (.presence m p? expected) = .asked cur' (.presence m p? expected) := by
  induction layers generalizing cur with
  | nil => exact .inr ⟨cur, rfl⟩
  | cons layer rest ih =>
    cases layer with
    | recorder | handler | reporting | guard => exact ih cur
    | single pattern =>
      rw [routeThrough]
      split
      · exact ih cur
      · exact .inl ⟨_, rfl⟩
    | candidate cand =>
      rw [routeThrough]
      cases cand.redirect? cur _ with
      | some cur => exact ih cur
      | none => exact .inl ⟨_, rfl⟩

/-- To ask for the same place twice applies no key that differs. -/
theorem askApplied_presence (h : m.path = m'.path) (p? : Option Property) (expected : Bool) :
    c.askApplied cur (.presence m p? expected) (.presence m' p? expected) = [] := by
  rw [askApplied, route, route]
  rcases c.routeThrough_presence c.layers cur m p? expected with ⟨s, hroute⟩ | ⟨entry, hroute⟩ <;>
    rcases c.routeThrough_presence c.layers cur m' p? expected with ⟨s', hroute'⟩ | ⟨entry', hroute'⟩ <;>
    rw [hroute, hroute']
  · rfl
  · rfl
  · rfl
  · rw [Route.applied, Cursor.applied, Leaf.member, Leaf.member, h, Registry.applied_self]

/-- Asking leaves that are alike gives one answer and tells leaves that are alike, where the keys that
are counted are applied to arrays. -/
structure Exchanges (c : Chain) (allowed asked : Bool) : Prop where
  standard : c.registry = .standard
  own : ∀ layer ∈ c.layers, layer.role ≠ .own
  ask : ∀ {cur l l'}, l.Counted allowed asked l' → (∀ x ∈ c.askApplied cur l l', x.isArray = true) →
    c.AsksAlike (Outline.Alike (Leaf.Counted allowed asked)) (some (cur, l)) (some (cur, l'))

end Chain

namespace Validator
variable {v : Validator} {allowed asked : Bool} {cur : Cursor} {l l' : Leaf}

theorem routeThrough_behind_counted {c : Chain} (hstd : c.registry = .standard)
    (hasked : v.terms.settings.existence = .abort → allowed = true → asked = true) (h : l.Counted allowed asked l')
    (harrays : ∀ x ∈ (c.routeThrough v.behind cur l).applied .standard (c.routeThrough v.behind cur l'), x.isArray = true) :
    (c.routeThrough v.behind cur l).Alike allowed asked (c.routeThrough v.behind cur l') := by
  rw [behind] at harrays ⊢
  cases hpolicy : v.terms.settings.existence with
  | optimistic =>
    have hasis : Chain.Replaces allowed asked (cur, l) (cur, l') := ⟨rfl, fun _ => h⟩
    rw [hpolicy] at harrays
    exact Route.alike_asked hasis harrays
  | safe =>
    rw [hpolicy] at harrays
    exact Chain.routeThrough_guard_counted hstd (fun habort => absurd habort Bool.false_ne_true) h harrays
  | abort =>
    rw [hpolicy] at harrays
    exact Chain.routeThrough_guard_counted hstd (fun _ => hasked hpolicy) h harrays

variable (hstd : v.terms.registry = .standard)
  (hasked : v.terms.settings.existence = .abort → allowed = true → asked = true)
include hstd hasked

theorem route_counted {f : Filter} (h : l.Counted allowed asked l')
    (harrays : ∀ x ∈ (v.chain f).askApplied cur l l', x.isArray = true) :
    ((v.chain f).route cur l).Alike allowed asked ((v.chain f).route cur l') := by
  have hregistry : (v.chain f).registry = .standard := hstd
  have hlayers : (v.chain f).layers = f.layers ++ v.behind := layers_chain v f
  rw [Chain.askApplied, hregistry] at harrays
  rw [Chain.route, Chain.route, hlayers] at harrays ⊢
  cases f with
  | everything => exact routeThrough_behind_counted hregistry hasked h harrays
  | member m =>
    rw [Filter.layers, List.singleton_append, Chain.routeThrough, Chain.routeThrough, h.covers_eq] at harrays ⊢
    cases hcovers : Layer.covers m.path l' with
    | true =>
      rw [hcovers] at harrays
      exact routeThrough_behind_counted hregistry hasked h harrays
    | false => exact Route.alike_settled _
  | candidate m x strict =>
    rw [Filter.layers, List.singleton_append, Chain.routeThrough, Chain.routeThrough, h.redirect?_eq] at harrays ⊢
    cases hredirect : Candidate.redirect? { path := m.path, object := x, strict } cur l' with
    | some entry =>
      rw [hredirect] at harrays
      exact routeThrough_behind_counted hregistry hasked h harrays
    | none => exact Route.alike_settled _

/-- Every pass exchanges keys in the paths of members; in those of operands too, if it may ask for the
operands under their paths. -/
theorem exchanges_chain (f : Filter) : (v.chain f).Exchanges allowed asked where
  standard := hstd
  own := v.own_chain f
  ask := by
    intro cur l l' h harrays
    obtain ⟨hanswer, htold⟩ := route_counted hstd hasked h harrays
    rw [← hstd] at hanswer htold
    refine ⟨?_, htold⟩
    rw [Chain.askIfAny, Chain.askIfAny, (v.reports_chain f).verdict_ask, (v.reports_chain f).verdict_ask]
    exact hanswer

end Validator

/-! ### Branches -/

theorem Outline.congruence_alike (R : Leaf → Leaf → Prop) : Congruence (Alike R) where
  nil := .nil
  append := Alike.append
  frame h kind s := .frame kind s h .nil

namespace Chain.Exchanges
variable {c : Chain} {allowed asked : Bool} {cur : Cursor} {m m' : Member}

theorem asks_presence (h : c.Exchanges allowed asked) (hm : m.Counted false m') (p? : Option Property) :
    c.AsksAlike (Outline.Alike (Leaf.Counted allowed asked)) (some (cur, .presence m p? true))
      (some (cur, .presence m' p? true)) := by
  refine h.ask (.presence p? true hm.of_kept) ?_
  rw [askApplied_presence hm.path_eq]
  exact nofun

theorem missingMember? (h : c.Exchanges allowed asked) {members members' : List Member}
    (hmembers : List.Forall₂ (Member.Counted false) members members') :
    c.AsksAlike (Outline.Alike (Leaf.Counted allowed asked)) (c.missingMember? cur members)
      (c.missingMember? cur members') := by
  unfold Chain.missingMember?
  induction hmembers with
  | nil => exact ⟨rfl, .nil⟩
  | @cons m m' _ _ hm _ ih =>
    obtain ⟨howner, hproperty⟩ := hm.splitProperty
    rw [List.map_cons, List.map_cons, List.find?_cons, List.find?_cons, ← hproperty, ← cur.has_path _ howner.path_eq]
    cases cur.has c.registry m.splitProperty.1 m.splitProperty.2 with
    | true => exact ih
    | false =>
      rw [Bool.not_false, Option.map_some, Option.map_some, ← hproperty, mustExist_counted howner]
      exact h.asks_presence howner _

theorem missingOperand? (h : c.Exchanges allowed asked) (operands : List Member) :
    c.AsksAlike (Outline.Alike (Leaf.Counted allowed asked)) (c.missingOperand? cur operands)
      (c.missingOperand? cur operands) := by
  rw [Chain.missingOperand?]
  cases operands.find? fun m => !cur.hasOperand c.registry m with
  | none => exact ⟨rfl, .nil⟩
  | some m => exact h.asks_presence (.of_eq rfl rfl rfl) _

/-- Branches at the same place are entered from the same cursor, and what is told before them is alike. -/
theorem branch (h : c.Exchanges allowed asked) {b b' : Branch} (hb : b.Beside Mentions.Counted b') (cur : Cursor) :
    c.enters? cur b = c.enters? cur b' ∧
      Outline.Alike (Leaf.Counted allowed asked) (c.prologue cur b) (c.prologue cur b') := by
  refine through_beside (Outline.congruence_alike _) (fun hmentions => ?_) hb cur
  exact precheck_beside (Outline.congruence_alike _) (h.missingMember? hmentions.members)
    (hmentions.operands ▸ h.missingOperand? _)

end Chain.Exchanges

/-! ### Plans -/

/-- The objects to which a demand on elements applies a key that the other one counts: the container, if
the keys differ, and what its elements are applied to. -/
def Chain.elementsApplied (c : Chain) (container container' : Member) (e e' : Expansion)
    (applied : Member → Member → Cursor → List Object) (answer : Member → Cursor → Status) (cur : Cursor) : List Object :=
  (if e.isExchanged e' then (cur.sees? c.registry container.path).toList else []) ++
    (c.elementsMet container e answer cur).flatMap fun x =>
      applied (container.element x.1 e.display?) (container'.element x.1 e'.display?) (cur.atElement container x)

namespace Plan

mutual

/-- The objects to which running the first plan applies a key that the second plan counts. -/
def applied (c : Chain) : Plan → Plan → Cursor → List Object
  | ask l, ask l', cur => c.askApplied cur l l'
  | connect k plans, connect _ plans', cur => appliedBy c k plans plans' cur
  | within b body, within _ body', cur => ((c.enters? cur b).map (applied c body body')).getD []
  | forEach container e body, forEach container' e' body', cur =>
    ((c.enters? cur (.elements e.quantifier container)).map
      (c.elementsApplied container container' e e' (fun scope scope' => applied c (body scope) (body' scope'))
        fun scope => (body scope).verdict c)).getD []
  | _, _, _ => []

/-- Those of the plans of a connective, up to the one that decides. -/
def appliedBy (c : Chain) (k : Connective) : List Plan → List Plan → Cursor → List Object
  | p :: ps, p' :: ps', cur =>
    applied c p p' cur ++ if k.decides (p.verdict c cur) then [] else appliedBy c k ps ps' cur
  | _, _, _ => []

end

/-- From every cursor from which the keys that are counted are applied to arrays, the plans give the same
answer and tell leaves that are alike. -/
def Exchanges (c : Chain) (allowed asked : Bool) (p p' : Plan) : Prop :=
  ∀ cur, (∀ x ∈ p.applied c p' cur, x.isArray = true) →
    p.AgreesAt c (Outline.Alike (Leaf.Counted allowed asked)) cur p'

variable {c : Chain} {allowed asked : Bool} {p p' : Plan} {scope scope' : Member} {body body' : Member → Plan}

theorem exchanges_connect {plans plans' : List Plan} (h : List.Forall₂ (Exchanges c allowed asked) plans plans')
    (k : Connective) : (connect k plans).Exchanges c allowed asked (connect k plans') := by
  intro cur harrays
  refine agreesAt_connect (Outline.congruence_alike _) ?_
  rw [applied] at harrays
  induction h with
  | nil => exact .nil
  | cons hp _ ih =>
    rw [appliedBy, List.forall_mem_append] at harrays
    refine .cons (hp cur harrays.1) fun hgoes => ih ?_
    rw [hgoes] at harrays
    exact harrays.2

theorem exchanges_ask (h : c.Exchanges allowed asked) {l l' : Leaf} (hl : l.Counted allowed asked l') :
    (ask l).Exchanges c allowed asked (ask l') := fun _ harrays =>
  h.ask hl harrays

theorem exchanges_within (h : c.Exchanges allowed asked) {b b' : Branch} (hb : b.Beside Mentions.Counted b')
    (hp : p.Exchanges c allowed asked p') : (within b p).Exchanges c allowed asked (within b' p') := by
  intro cur harrays
  have := Chain.HandlerFree.of_own h.own
  refine agreesAt_within (Outline.congruence_alike _) hb.frame_eq (h.branch hb cur) fun entry hentry => hp entry ?_
  rw [applied, hentry] at harrays
  exact harrays

theorem exchanges_forEach (h : c.Exchanges allowed asked) {e e' : Expansion} (hs : scope.Counted false scope')
    (he : Key.Counted true (.expand e) (.expand e'))
    (hbody : ∀ scope scope', scope.Counted false scope' → (body scope).Exchanges c allowed asked (body' scope')) :
    (forEach scope e body).Exchanges c allowed asked (forEach scope' e' body') := by
  intro cur harrays
  have hq : e.quantifier = e'.quantifier := by
    obtain ⟨e'', heq, hq⟩ := he.exists_expansion
    cases heq
    exact hq
  have hdisplay : Option.Rel (Key.Counted true) e.display? e'.display? := by
    rw [Expansion.display?, Expansion.display?, ← hq]
    cases e.quantifier with
    | all => exact .none
    | any => exact .some he
  -- the container and what its elements are applied to, from where the demand is entered
  have hinside : ∀ entry, c.enters? cur (.elements e.quantifier scope) = some entry →
      (e.isExchanged e' = true → ∀ x ∈ entry.sees? c.registry scope.path, x.isArray = true) ∧
        ∀ x ∈ c.elementsMet scope e (fun scope => (body scope).verdict c) entry,
          ∀ y ∈ (body (scope.element x.1 e.display?)).applied c (body' (scope'.element x.1 e'.display?))
            (entry.atElement scope x), y.isArray = true := by
    intro entry hentry
    rw [applied, hentry, Option.map_some, Option.getD_some, Chain.elementsApplied, List.forall_mem_append] at harrays
    refine ⟨fun hexchanged x hx => harrays.1 x ?_, fun x hx y hy => harrays.2 y (List.mem_flatMap_of_mem hx hy)⟩
    rw [if_pos hexchanged]
    exact Option.mem_toList.2 hx
  refine agreesAt_forEach (Outline.congruence_alike _) h.own hs.path_eq hq (h.branch (.elements _ hs.path_eq) cur)
    (fun entry hentry => ?_) fun entry hentry x hx => ?_
  · rw [Cursor.found?, Cursor.found?, ← hs.path_eq]
    refine Option.bind_congr fun x hx => ?_
    have hregistry : c.terms.registry = .standard := h.standard
    rw [hregistry]
    exact Registry.found?_counted he (fun hexchanged => (hinside entry hentry).1 hexchanged x hx) _
  · exact hbody _ _ (hs.element x.1 hdisplay) _ ((hinside entry hentry).2 x hx)

theorem exchanges_along (h : c.Exchanges allowed asked) {path path' : Path} (hpath : path.Counted true path')
    (hs : scope.Counted false scope')
    (hbody : ∀ scope scope', scope.Counted false scope' → (body scope).Exchanges c allowed asked (body' scope')) :
    (along body path scope).Exchanges c allowed asked (along body' path' scope') := by
  induction hpath generalizing scope scope' with
  | nil => exact hbody _ _ hs
  | @cons k k' path path' hk _ ih =>
    cases hexpands : k.isExpansion with
    | false =>
      have hextend := hs.extend (.refl false [k])
      cases hk.eq_of_isExpansion hexpands
      cases k with
      | expand => cases hexpands
      | name | index | property => exact ih hextend
    | true =>
      cases k with
      | name | index | property => cases hexpands
      | expand e =>
        obtain ⟨e', rfl, -⟩ := hk.exists_expansion
        exact exchanges_forEach h hs hk fun scope scope' hs => ih hs

end Plan

/-! ### Rules -/

namespace Rule
variable {c : Chain} {allowed asked : Bool}

mutual

theorem exchanges (h : c.Exchanges allowed asked) : ∀ (r : Rule) {r' : Rule} {scope scope' : Member},
    r.Counted allowed r' → scope.Counted false scope' → (r.plan scope).Exchanges c allowed asked (r'.plan scope')
  | condition .., _, _, _, .condition op ho, hs => Plan.exchanges_ask h (Leaf.counted_compare hs none op ho)
  | property .., _, _, _, .property p op ho, hs => Plan.exchanges_ask h (Leaf.counted_compare hs (some p) op ho)
  | presence _, _, scope, scope', .presence expected, hs => by
    obtain ⟨howner, hproperty⟩ := hs.splitProperty
    rw [plan, plan, ← hproperty]
    exact Plan.exchanges_ask h (.presence _ expected howner.of_kept)
  | bind m body, _, scope, scope', .bind hm hbody, hs => by
    rw [plan, plan]
    exact Plan.exchanges_along h hm.path (hs.adoptNames hm.names) fun _ _ hs => exchanges h body hbody hs
  | group k rules, _, scope, scope', .group _ hrules, hs => by
    have hmentions := Mentions.Counted.ofRules hrules hs
    exact Plan.exchanges_within h (.group k hmentions) (Plan.exchanges_connect (exchange h rules hrules hs) k)
  | elements e rules, _, scope, scope', .elements he hrules, hs =>
    Plan.exchanges_forEach h hs he fun _ _ hs => Plan.exchanges_connect (exchange h rules hrules hs) .and
  | explain _ body, _, scope, scope', .explain message hbody, hs =>
    Plan.exchanges_within h (.explained message scope scope') (exchanges h body hbody hs)

theorem exchange (h : c.Exchanges allowed asked) : ∀ (rs : List Rule) {rs' : List Rule} {scope scope' : Member},
    List.Forall₂ (Counted allowed) rs rs' → scope.Counted false scope' →
      List.Forall₂ (Plan.Exchanges c allowed asked) (plans rs scope) (plans rs' scope')
  | [], _, _, _, .nil, _ => .nil
  | r :: rs, _, _, _, .cons hr hrs, hs => .cons (exchanges h r hr hs) (exchange h rs hrs hs)

end

end Rule

/-! ### Whole passes -/

theorem Outcome.eq_of_parts {a b : Outcome} (hstatus : a.status = b.status) (htext : a.text = b.text)
    (hfailed : a.failed = b.failed) : a = b := by
  obtain ⟨status, text, failed⟩ := a
  obtain rfl : status = b.status := hstatus
  obtain rfl : text = b.text := htext
  obtain rfl : failed = b.failed := hfailed
  rfl

theorem placesOf_counted {allowed asked : Bool} {ts us : List Outline}
    (h : Outline.Alike (Leaf.Counted allowed asked) ts us) :
    List.Forall₂ (Path.Counted asked) (((Outline.accusedOf [] ts).map Member.path).filter (!·.isEmpty))
      (((Outline.accusedOf [] us).map Member.path).filter (!·.isEmpty)) := by
  have haccused : List.Forall₂ (fun m m' : Member => m.path.Counted asked m'.path)
      (Outline.accusedOf [] ts) (Outline.accusedOf [] us) :=
    h.accusedOf (fun _ _ h => h.path) []
  refine List.rel_filter (fun p p' hp => ?_)
    (List.forall₂_map_left_iff.2 (List.forall₂_map_right_iff.2 haccused))
  cases hp <;> simp

namespace Validator

/-- The objects to which a pass applies a key of its rule that the other rule counts. -/
def applied (v : Validator) (rule : Rule) (o : Object) (f : Filter) : List Object :=
  (v.rule.plan .root).applied (v.chain f) (rule.plan .root) (.start o)

variable {v : Validator} {rule : Rule} {o : Object} {f : Filter} {allowed : Bool}

/-- A pass with the one rule answers like a pass with the other, and tells leaves that are alike. Only
under the policy by which a missing member fails it asks whether an operand exists. -/
theorem told_counted (hstd : v.terms.registry = .standard) (hrule : v.rule.Counted allowed rule)
    (harrays : ∀ x ∈ v.applied rule o f, x.isArray = true) :
    let w : Validator := { v with rule }
    (w.run o f).status = (v.run o f).status ∧
      Outline.Alike (Leaf.Counted allowed (allowed && decide (v.terms.settings.existence = .abort)))
        (v.told o f) (w.told o f) := by
  intro w
  have hexchanges : (v.chain f).Exchanges allowed (allowed && decide (v.terms.settings.existence = .abort)) :=
    exchanges_chain hstd (fun hpolicy hallowed => by rw [hallowed, decide_eq_true hpolicy]; rfl) f
  have hroot : Member.root.Counted false .root := .of_eq rfl rfl rfl
  obtain ⟨hverdict, htold⟩ := v.rule.exchanges hexchanges hrule hroot (.start o) harrays
  rw [status_run, status_run]
  exact ⟨hverdict.symm, htold⟩

/-- The paths that an outcome lists are those of the members that the pass accuses. -/
theorem failed_run (v : Validator) (o : Object) (f : Filter) : (v.run o f).failed =
    ((((Outline.accusedOf [] (v.told o f)).map Member.path).filter (!·.isEmpty)).map Path.text).eraseDups := by
  rw [run_eq_report]
  exact Outline.listed_eq _

/-- A rule some of whose keys run through elements and one in which these keys count positions come out
alike, whatever the pass, if the keys are applied to arrays. Where a missing operand fails the pass, its
path is listed as the rule has it; the answer, the text and all else about the list are still the same. -/
theorem run_counted (v : Validator) (rule : Rule) (o : Object) (f : Filter) {allowed : Bool}
    (hstd : v.terms.registry = .standard) (hrule : v.rule.Counted allowed rule)
    (harrays : ∀ x ∈ v.applied rule o f, x.isArray = true) :
    let w : Validator := { v with rule }
    (allowed = false ∨ v.terms.settings.existence ≠ .abort → w.run o f = v.run o f) ∧
    (w.run o f).status = (v.run o f).status ∧ (w.run o f).text = (v.run o f).text ∧
    ∃ places places' : List Path, List.Forall₂ (Path.Counted true) places places' ∧
      (v.run o f).failed = (places.map Path.text).eraseDups ∧
      (w.run o f).failed = (places'.map Path.text).eraseDups := by
  intro w
  obtain ⟨hstatus, htold⟩ := told_counted hstd hrule harrays
  have htext : (w.run o f).text = (v.run o f).text := by
    rw [run_eq_report, run_eq_report]
    have hparts := htold.parts_eq (l := v.locale) (fun _ _ negate h => Locale.leafText_counted h negate) []
    exact congrArg ("; ".intercalate ·) hparts.symm
  have hplaces := placesOf_counted htold
  refine ⟨fun hkept => ?_, hstatus, htext, _, _, hplaces.imp fun _ _ => Path.Counted.mono, failed_run v o f,
    failed_run w o f⟩
  have hfalse : (allowed && decide (v.terms.settings.existence = .abort)) = false := by
    rcases hkept with rfl | hpolicy
    · rfl
    · rw [decide_eq_false hpolicy, Bool.and_false]
  rw [hfalse] at hplaces
  have heq := List.forall₂_eq_eq_eq ▸ hplaces.imp fun _ _ => Path.Counted.eq
  have hfailed : (w.run o f).failed = (v.run o f).failed := by
    rw [failed_run, failed_run, heq]
  exact Outcome.eq_of_parts hstatus htext hfailed

/-- Each order needs an item below the cap, and none may be void. The second order has no such item, and
the negation is not come to. -/
theorem run_counted_orders :
    let rule (every some : Expansion) : Rule := .group .and
      [.bind { path := [.name "orders", .expand every, .name "items", .expand some, .name "price"] }
        (.condition (.compare .lt) (.member { path := [.name "cap"] })),
       .group .not [.bind { path := [.name "orders", .expand some, .name "state"] }
        (.condition (.compare .eq) (.value (.str "void")))]]
    let v : Validator := { rule := rule (.each .all) (.each .any) }
    let counted : Rule := rule (.variadic .all .size) (.variadic .any .size)
    let w : Validator := { v with rule := counted }
    let order (state : String) (prices : List Int) : Json :=
      .object [("items", .list (prices.map fun price => .object [("price", .int price)])), ("state", .str state)]
    let o : Object := .json (.object [("cap", .int 5), ("orders", .list [order "open" [9, 3], order "paid" [7]])])
    (v.terms.registry = .standard ∧ v.rule.Counted false counted ∧
      (∀ x ∈ v.applied counted o .everything, x.isArray = true) ∧ (v.applied counted o .everything).length = 3) ∧
    w.validate o = v.validate o ∧
    (v.validate o).text = "price of at least one element of items of element #1 of orders must be less than cap" ∧
    (v.validate o).failed = ["orders.0.items.0.price", "orders.1.items.0.price"] := by
  intro rule v counted w order o
  have hprices : Path.Counted true [.name "orders", .expand (.each .all), .name "items", .expand (.each .any), .name "price"]
      [.name "orders", .expand (.variadic .all .size), .name "items", .expand (.variadic .any .size), .name "price"] :=
    .cons (.same _) (.cons (.size .all rfl) (.cons (.same _) (.cons (.size .any rfl) (.cons (.same _) .nil))))
  have hstates : Path.Counted true [.name "orders", .expand (.each .any), .name "state"]
      [.name "orders", .expand (.variadic .any .size), .name "state"] :=
    .cons (.same _) (.cons (.size .any rfl) (.cons (.same _) .nil))
  have hrule : v.rule.Counted false counted :=
    .group .and (.cons (.bind ⟨hprices, .none, rfl⟩ (.condition _ (.member (.of_eq rfl rfl rfl))))
      (.cons (.group .not (.cons (.bind ⟨hstates, .none, rfl⟩ (.condition _ (.value _))) .nil)) .nil))
  have harrays : ∀ x ∈ v.applied counted o .everything, x.isArray = true := by decide
  have h := run_counted v counted o .everything rfl hrule harrays
  exact ⟨⟨rfl, hrule, harrays, by decide⟩, h.1 (.inl rfl), by decide, by decide⟩

/-- A missing operand is listed as the rule has it. -/
theorem failed_of_counted_operand :
    let rule (e : Expansion) : Rule :=
      .bind { path := [.name "a"] } (.condition (.compare .gt) (.member { path := [.name "items", .expand e] }))
    let v : Validator := { rule := rule (.each .all), terms := { settings := { existence := .abort } } }
    let counted : Rule := rule (.variadic .all .size)
    let w : Validator := { v with rule := counted }
    let o : Object := .json (.object [("a", .int 1)])
    (v.rule.Counted true counted ∧ Registry.standard.at? o [.name "items"] = none ∧
      v.applied counted o .everything = []) ∧
    (v.validate o).failed = ["items.*"] ∧ (w.validate o).failed = ["items.#size"] ∧ w.validate o ≠ v.validate o := by
  intro rule v counted w o
  have hoperand : Path.Counted true [.name "items", .expand (.each .all)]
      [.name "items", .expand (.variadic .all .size)] :=
    .cons (.same _) (.cons (.size .all rfl) .nil)
  have hrule : v.rule.Counted true counted :=
    .bind (.of_eq rfl rfl rfl) (.condition _ (.member ⟨hoperand, .none, rfl⟩))
  exact ⟨⟨hrule, rfl, rfl⟩, by decide, by decide, by decide⟩

end Validator

end Conform
