import Conform.Proofs.Committed
import Conform.Proofs.Elsewhere
import Conform.Proofs.Throughout

/-!
# Candidates and what they replace

Two passes that check the same candidate for a place of two documents which are the same elsewhere
read the same, as long as the rules expand to nothing strictly inside the place
(`Validator.prevalidate_independent`): what leads into the place is read from the candidate, and the
rest looks alike. Only trees step past the place, and these are answered from what is to be replaced.
-/

namespace Conform

/-! ### Cursors in two documents -/

/-- What two cursors find at a path looks alike. -/
def Cursor.Alike (cur cur' : Cursor) (p : Path) : Prop :=
  Option.Rel Object.Looks (cur.sees? .standard p) (cur'.sees? .standard p)

namespace Object.Looks
variable {o? o'? : Option Object}

theorem rel_refl (o? : Option Object) : Option.Rel Looks o? o? := by
  cases o? with
  | none => exact .none
  | some o => exact .some (.refl o)

theorem bind_scalarOf? (h : Option.Rel Looks o? o'?) (p? : Option Property) :
    o?.bind (Registry.standard.scalarOf? · p?) = o'?.bind (Registry.standard.scalarOf? · p?) := by
  cases h with
  | none => rfl
  | some hlooks => exact hlooks.scalarOf? p?

theorem isSome_eq (h : Option.Rel Looks o? o'?) : o?.isSome = o'?.isSome := by
  cases h <;> rfl

end Object.Looks

namespace Cursor.Alike
variable {cur cur' : Cursor} {p : Path} {m : Member} {l : Leaf}

theorem of_eq (h : cur.sees? .standard p = cur'.sees? .standard p) : cur.Alike cur' p := by
  rw [Alike, h]
  exact Object.Looks.rel_refl _

theorem has (h : cur.Alike cur' m.path) (hm : m.path.Concrete) (p? : Option Property) :
    cur.has .standard m p? = cur'.has .standard m p? := by
  cases p? with
  | some p =>
    rw [has_some, has_some]
    exact congrArg Option.isSome (Object.Looks.bind_scalarOf? h (some p))
  | none =>
    rw [has_none_concrete _ _ hm, has_none_concrete _ _ hm]
    exact Object.Looks.isSome_eq h

theorem answer (h : cur.Alike cur' l.member.path) (hl : l.member.path.Concrete)
    (ho : ∀ other, l.operand? = some other → cur.fromOperands.Alike cur'.fromOperands other.splitProperty.1.path) :
    cur.answer .standard l = cur'.answer .standard l := by
  cases l with
  | presence m p? expected => rw [Cursor.answer, Cursor.answer, has (m := m) h hl]
  | check subject k =>
    have hleft : cur.left? .standard k = cur'.left? .standard k := by
      rw [left?_eq, left?_eq]
      exact Object.Looks.bind_scalarOf? h k.property?
    have hright : cur.right? .standard k = cur'.right? .standard k := by
      obtain ⟨m, p?, op, operand⟩ := k
      cases operand with
      | value | sample => rfl
      | member other =>
        rw [right?_member _ _ rfl, right?_member _ _ rfl]
        exact Object.Looks.bind_scalarOf? (ho other rfl) _
    rw [Cursor.answer, Cursor.answer, compare, compare, hleft, hright]

end Cursor.Alike

namespace Candidate

/-- From `p`, two cursors read two documents, or both read the candidate. -/
structure Twins (cand : Candidate) (o o' : Object) (p : Path) (cur cur' : Cursor) : Prop where
  consumed : cur.consumed = p.length
  consumed' : cur'.consumed = p.length
  root : cur.root = o
  root' : cur'.root = o'
  operands : cur.operandOrigin? = none
  operands' : cur'.operandOrigin? = none
  side : cand.Ahead .standard o p cur ∧ cand.Ahead .standard o' p cur' ∨
    cand.Inside p cur cur' ∧ cand.Inside p cur' cur

variable {cand : Candidate} {o o' : Object} {p q : Path} {cur cur' : Cursor}

theorem Twins.start (cand : Candidate) (o o' : Object) : cand.Twins o o' [] (.start o) (.start o') where
  consumed := rfl
  consumed' := rfl
  root := rfl
  root' := rfl
  operands := rfl
  operands' := rfl
  side := .inl ⟨⟨rfl, rfl, fun h => (List.prefix_nil.1 h).symm⟩, ⟨rfl, rfl, fun h => (List.prefix_nil.1 h).symm⟩⟩

namespace Twins

theorem sees?_enter (h : cand.Twins o o' p cur cur') (hp : p <+: q) (hq : cand.path <+: q) (r : Registry) (s : Path) :
    (cand.enter cur).sees? r s = (cand.enter cur').sees? r s := by
  rcases h.side with ⟨ha, ha'⟩ | ⟨hi, hi'⟩
  · have hpc := ha.isPrefix hp hq
    rw [enter, enter, if_pos (ha.isAhead h.consumed hpc), if_pos (ha'.isAhead h.consumed' hpc)]
    rfl
  · rw [hi.enter h.consumed, hi'.enter h.consumed', Cursor.sees?, Cursor.sees?, h.consumed, h.consumed', hi.same]

theorem alike (h : cand.Twins o o' p cur cur')
    (hlooks : ∀ q, ¬ cand.path <+: q → Option.Rel Object.Looks (Registry.standard.at? o q) (Registry.standard.at? o' q))
    (hpq : p <+: q ∨ q <+: p) (hq : ¬ cand.path <+: q) : cur.Alike cur' q := by
  rcases h.side with ⟨ha, ha'⟩ | ⟨hi, hi'⟩
  · by_cases hp : p <+: q
    · rw [Cursor.Alike, (ha.stands h.consumed hp).sees, (ha'.stands h.consumed' hp).sees]
      exact hlooks q hq
    -- what lies above a cursor it does not see
    · have hlt : q.length < p.length := by
        have hqp := hpq.resolve_left hp
        exact Nat.lt_of_le_of_ne hqp.length_le fun hlen => hp (hqp.eq_of_length hlen ▸ List.prefix_rfl)
      refine .of_eq ?_
      rw [Cursor.sees?_of_lt _ (h.consumed ▸ hlt), Cursor.sees?_of_lt _ (h.consumed' ▸ hlt)]
  · refine .of_eq ?_
    rw [Cursor.sees?, Cursor.sees?, h.consumed, h.consumed', hi.same]

end Twins

/-! ### Leaves -/

theorem enter_root (cand : Candidate) (cur : Cursor) : (cand.enter cur).root = cur.root := by
  unfold enter
  split <;> rfl

theorem enter_operands (cand : Candidate) (cur : Cursor) : (cand.enter cur).operandOrigin? = cur.operandOrigin? := by
  unfold enter
  split <;> rfl

/-- The cursor from which a leaf is asked whose member or operand leads into the candidate. -/
def follow (cand : Candidate) (cur : Cursor) (left right : Bool) : Cursor :=
  let cur := if left then cand.enter cur else cur
  if right then cur.moveOperands cand.origin cand.path.length else cur

theorem redirect?_eq (cand : Candidate) (cur : Cursor) (l : Leaf) :
    cand.redirect? cur l =
      if cand.holds l.member.path || (l.operand?.map fun m => cand.holds m.path).getD false then
        some (cand.follow cur (cand.holds l.member.path) ((l.operand?.map fun m => cand.holds m.path).getD false))
      else none := rfl

theorem sees?_follow (cand : Candidate) (cur : Cursor) (left right : Bool) (r : Registry) (s : Path) :
    (cand.follow cur left right).sees? r s = (if left then cand.enter cur else cur).sees? r s := by
  cases right <;> rfl

theorem sees?_operands_follow (cand : Candidate) (h : cur.operandOrigin? = none) (left : Bool) (r : Registry)
    (s : Path) : (cand.follow cur left false).fromOperands.sees? r s = r.at? cur.root s := by
  have hbase : (cand.follow cur left false).operandBase = ({ object := cur.root }, 0) := by
    cases left with
    | false => rw [Cursor.operandBase]; exact congrArg (Option.getD · _) h
    | true =>
      show ((cand.enter cur).operandOrigin?).getD ({ object := (cand.enter cur).root }, 0) = _
      rw [enter_operands, enter_root, h]
      rfl
  rw [Cursor.fromOperands, hbase, Cursor.sees?_of_le r (Nat.zero_le _)]
  rfl

/-- A leaf about a place below the cursors is passed on by both or by neither, and answered alike. -/
theorem Twins.redirect?_answer (h : cand.Twins o o' p cur cur')
    (hlooks : ∀ q, ¬ cand.path <+: q → Option.Rel Object.Looks (Registry.standard.at? o q) (Registry.standard.at? o' q))
    (hcand : cand.path.Literal) {l : Leaf} (hp : p <+: q) (hl : l.member.path <+: q) (hq : q.Concrete) :
    (cand.redirect? cur l).map (·.answer .standard l) = (cand.redirect? cur' l).map (·.answer .standard l) := by
  rw [redirect?_eq, redirect?_eq]
  split
  case isFalse => rfl
  rw [Option.map_some, Option.map_some]
  refine congrArg some (Cursor.Alike.answer ?_ (fun k hk => hq k (hl.subset hk)) fun other hother => ?_)
  · rw [Cursor.Alike, sees?_follow, sees?_follow]
    cases hleft : cand.holds l.member.path with
    | true =>
      rw [if_pos rfl, if_pos rfl, h.sees?_enter hp (((Path.covers_iff hcand).1 hleft).trans hl)]
      exact Object.Looks.rel_refl _
    | false =>
      rw [if_neg Bool.false_ne_true, if_neg Bool.false_ne_true]
      have hout : ¬ cand.path <+: l.member.path := fun hpre => by
        rw [holds, (Path.covers_iff hcand).2 hpre] at hleft
        cases hleft
      exact h.alike hlooks (List.prefix_or_prefix_of_prefix hp hl) hout
  · rw [hother, Option.map_some, Option.getD_some]
    cases hright : cand.holds other.path with
    | true => exact .of_eq rfl
    | false =>
      rw [Cursor.Alike, sees?_operands_follow cand h.operands, sees?_operands_follow cand h.operands', h.root, h.root']
      refine hlooks _ fun hpre => ?_
      have howner : other.splitProperty.1.path <+: other.path := ⟨_, other.splitProperty_join⟩
      rw [holds, (Path.covers_iff hcand).2 (hpre.trans howner)] at hright
      cases hright

/-! ### Elements -/

section Elements
variable {container : Member} {s : Path} {x y : Object}

theorem Twins.atElement_inside (h : cand.Twins o o' p cur cur') (hp : p <+: container.path)
    (hc : cand.path <+: container.path) (y : Path × Object) :
    cand.Twins o o' (container.path ++ y.1) ((cand.enter cur).atElement container y)
      ((cand.enter cur').atElement container y) where
  consumed := rfl
  consumed' := rfl
  root := (enter_root cand cur).trans h.root
  root' := (enter_root cand cur').trans h.root'
  operands := (enter_operands cand cur).trans h.operands
  operands' := (enter_operands cand cur').trans h.operands'
  side := by
    have hbelow : cand.path <+: container.path ++ y.1 := hc.trans (List.prefix_append ..)
    have hside := h.side.imp And.left And.left
    have hside' := h.side.imp And.right And.right
    exact .inr ⟨⟨hbelow, rfl, candidate?_atElement hside h.consumed hp hc⟩,
      ⟨hbelow, rfl, candidate?_atElement hside' h.consumed' hp hc⟩⟩

theorem Twins.atElement (h : cand.Twins o o' p cur cur') (hp : p <+: container.path)
    (hc : ¬ cand.path <+: container.path)
    (hx : Registry.standard.at? o (container.path ++ s) = some x)
    (hy : Registry.standard.at? o' (container.path ++ s) = some y)
    (hout : cand.path <+: container.path ++ s → container.path ++ s = cand.path) :
    cand.Twins o o' (container.path ++ s) (cur.atElement container (s, x)) (cur'.atElement container (s, y)) where
  consumed := rfl
  consumed' := rfl
  root := h.root
  root' := h.root'
  operands := h.operands
  operands' := h.operands'
  side := by
    obtain ⟨ha, ha'⟩ := h.side.resolve_right fun hi => hc (hi.1.below.trans hp)
    exact .inl ⟨ha.element hx hout, ha'.element hy hout⟩

end Elements

end Candidate

/-! ### Plans -/

/-- A plan expands to nothing strictly inside a place, wherever its demands are outside of it. -/
def Plan.Stops (t : Terms) (o : Object) (m : Path) (p : Plan) : Prop :=
  ∀ d ∈ p.demands t o, t.Stops o m d.1 d.2

/-- A pass that checks a candidate, and two documents that are the same but for what it replaces. -/
structure Validator.Replaces (v : Validator) (m : Member) (j j' : Json) : Prop where
  standard : v.terms.registry = .standard
  policy : v.terms.settings.existence ≠ .abort
  literal : m.path.Literal
  same : Json.SameBut m.path j j'
  wellFormed : j.WellFormed
  wellFormed' : j'.WellFormed

namespace Validator.Replaces
variable {v : Validator} {m : Member} {x : Object} {strict : Bool} {j j' : Json} {p q : Path} {cur cur' : Cursor}

theorem looks (h : v.Replaces m j j') {q : Path} (hq : ¬ m.path <+: q) :
    Option.Rel Object.Looks (Registry.standard.at? (.json j) q) (Registry.standard.at? (.json j') q) := by
  rcases h.same.at?_cases h.wellFormed hq with heq | ⟨k, s, v, w, -, hsame, hv, hat, hat'⟩
  · rw [heq]
    exact Object.Looks.rel_refl _
  · rw [hat, hat']
    exact .some (hsame.looks hv)

theorem askThrough_eq (h : v.Replaces m j j') (c : Chain) (cur : Cursor) (l : Leaf) :
    c.askThrough ((Layer.ofExistence? v.terms.settings.existence).toList ++ [.reporting]) cur l =
      c.askThrough [.reporting] cur l := by
  cases he : v.terms.settings.existence with
  | optimistic => rfl
  | safe => exact Chain.askThrough_guard rfl cur l
  | abort => exact absurd he h.policy

/-- A leaf is passed on to the reporter with its answer, or succeeds unasked. -/
theorem ask_redirected (h : v.Replaces m j j') (cur : Cursor) (l : Leaf) :
    (v.chain (.candidate m x strict)).ask cur l =
      ((Candidate.redirect? { path := m.path, object := x, strict } cur l).map (·.answer .standard l)).elim
        (pure .success) (fun s => (fun _ => s) <$> Pass.report (·.leaf s l)) := by
  have hregistry : (v.chain (.candidate m x strict)).registry = .standard := h.standard
  rw [Chain.ask, layers_chain, Filter.layers, List.singleton_append, Chain.askThrough_candidate, Option.elim_map]
  refine congrArg _ (funext fun cur => ?_)
  rw [h.askThrough_eq, Chain.askThrough, Chain.askThrough, hregistry, pure_bind]
  rfl

theorem ask_eq (h : v.Replaces m j j')
    (htwins : Candidate.Twins { path := m.path, object := x, strict } (.json j) (.json j') p cur cur') {l : Leaf}
    (hp : p <+: q) (hl : l.member.path <+: q) (hq : q.Concrete) :
    (v.chain (.candidate m x strict)).ask cur l = (v.chain (.candidate m x strict)).ask cur' l := by
  rw [h.ask_redirected, h.ask_redirected, htwins.redirect?_answer (fun q hq => h.looks hq) h.literal hp hl hq]

end Validator.Replaces

/-- The plan for a member runs alike in both documents, if it stops at the place in both. -/
def Plan.Independent (v : Validator) (m : Member) (x : Object) (strict : Bool) (j j' : Json)
    (body : Member → Plan) : Prop :=
  ∀ (scope : Member) (p : Path) (cur cur' : Cursor), p <+: scope.path → scope.path.Concrete →
    Candidate.Twins { path := m.path, object := x, strict } (.json j) (.json j') p cur cur' →
    (m.path <+: p ∨ (body scope).Stops v.terms (.json j) m.path ∧ (body scope).Stops v.terms (.json j') m.path) →
    (body scope).run (v.chain (.candidate m x strict)) cur = (body scope).run (v.chain (.candidate m x strict)) cur'

namespace Plan
variable {v : Validator} {m : Member} {x : Object} {strict : Bool} {j j' : Json}

theorem independent_ask (h : v.Replaces m j j') {leaf : Member → Leaf}
    (hleaf : ∀ scope, (leaf scope).member.path <+: scope.path) :
    Independent v m x strict j j' fun scope => .ask (leaf scope) :=
  fun scope _ _ _ hp hscope htwins _ => h.ask_eq htwins hp (hleaf scope) hscope

theorem Independent.forEach (h : v.Replaces m j j') {e : Expansion} {body : Member → Plan}
    (hbody : Independent v m x strict j j' body) : Independent v m x strict j j' (forEach · e body) := by
  intro scope p cur cur' hp hscope htwins hstops
  set cand : Candidate := { path := m.path, object := x, strict }
  set c := v.chain (.candidate m x strict)
  rw [run, run, Chain.demand, Chain.demand, Validator.around_candidate_elements, Validator.around_candidate_elements]
  refine congrArg (Chain.framed (.elements e.quantifier scope)) ?_
  by_cases hc : m.path <+: scope.path
  -- inside the place both read the candidate's elements
  · rw [if_pos ((Path.covers_iff h.literal).2 hc), if_pos ((Path.covers_iff h.literal).2 hc)]
    have hfound : (cand.enter cur).found? c.terms scope.path e = (cand.enter cur').found? c.terms scope.path e := by
      rw [Cursor.found?, Cursor.found?, htwins.sees?_enter hp hc]
    refine Chain.overElements_congr rfl (fun _ _ => rfl) hfound fun y hy => ?_
    have hy : y.1.Concrete := (Cursor.literal_of_mem_found? hy).concrete
    exact hbody _ _ _ _ List.prefix_rfl (hscope.append hy) (htwins.atElement_inside hp hc y)
      (.inl (hc.trans (List.prefix_append ..)))
  -- outside of it they read their own documents, which lead to the same places
  · rw [if_neg (mt (Path.covers_iff h.literal).1 hc), if_neg (mt (Path.covers_iff h.literal).1 hc)]
    obtain ⟨hstops, hstops'⟩ := hstops.resolve_left fun hmp => hc (hmp.trans hp)
    obtain ⟨ha, ha'⟩ := htwins.side.resolve_right fun hi => hc (hi.1.below.trans hp)
    have hout := hstops _ (List.mem_cons_self ..)
    have hout' := hstops' _ (List.mem_cons_self ..)
    have hplaces := h.same.found?_places h.standard h.wellFormed h.wellFormed' hc hout hout'
    have hf : cur.found? c.terms scope.path e = v.terms.found? (.json j) scope.path e :=
      (h.standard.symm ▸ ha.stands htwins.consumed hp).found? e
    have hf' : cur'.found? c.terms scope.path e = v.terms.found? (.json j') scope.path e :=
      (h.standard.symm ▸ ha'.stands htwins.consumed' hp).found? e
    refine Chain.overElements_congr_places rfl (fun _ _ => rfl) (by rw [hf, hf', hplaces]) fun s y y' hy hy' => ?_
    rw [hf] at hy
    rw [hf'] at hy'
    have hat := Terms.at?_of_mem_found? (by rw [Object.WellFormed]; exact h.wellFormed) hy
    have hat' := Terms.at?_of_mem_found? (by rw [Object.WellFormed]; exact h.wellFormed') hy'
    rw [h.standard] at hat hat'
    have hs : Path.Concrete s := (Terms.literal_of_mem_found? hy).concrete
    refine hbody _ _ _ _ List.prefix_rfl (hscope.append hs) ?_ (.inr ⟨fun d hd => ?_, fun d hd => ?_⟩)
    · exact htwins.atElement hp hc hat hat' (hout.resolve_left hc (s, y) hy)
    · exact hstops d (mem_demands_forEach.2 (.inr ⟨(s, y), hy, hd⟩))
    · exact hstops' d (mem_demands_forEach.2 (.inr ⟨(s, y'), hy', hd⟩))

theorem Independent.along (h : v.Replaces m j j') {body : Member → Plan} (hbody : Independent v m x strict j j' body)
    (path : Path) : Independent v m x strict j j' (along body path) := by
  refine along_ind hbody ?_ ?_
  · intro e he body ih
    exact ih.forEach h
  · intro k hk body ih scope p cur cur' hp hscope
    exact ih (scope.extend [k]) p cur cur' (hp.trans (List.prefix_append ..)) (hscope.append hk)

theorem Independent.within (h : v.Replaces m j j') {branch : Member → Branch} {body : Member → Plan}
    (hplain : ∀ scope q container, branch scope ≠ .elements q container) (hbody : Independent v m x strict j j' body) :
    Independent v m x strict j j' fun scope => .within (branch scope) (body scope) := by
  intro scope p cur cur' hp hscope htwins hstops
  have hframe : v.terms.settings.existence = .abort → (branch scope).frame ≠ .not := fun he => absurd he h.policy
  rw [run, run, Validator.around_candidate cur hframe (hplain scope),
    Validator.around_candidate cur' hframe (hplain scope), hbody scope p cur cur' hp hscope htwins hstops]

theorem independent_connect (k : Connective) {plans : Member → List Plan}
    (hplans : ∀ (scope : Member) (p : Path) (cur cur' : Cursor), p <+: scope.path → scope.path.Concrete →
      Candidate.Twins { path := m.path, object := x, strict } (.json j) (.json j') p cur cur' →
      ∀ q ∈ plans scope, (m.path <+: p ∨ q.Stops v.terms (.json j) m.path ∧ q.Stops v.terms (.json j') m.path) →
        q.run (v.chain (.candidate m x strict)) cur = q.run (v.chain (.candidate m x strict)) cur') :
    Independent v m x strict j j' fun scope => .connect k (plans scope) := by
  intro scope p cur cur' hp hscope htwins hstops
  rw [run, run, runs_eq_map, runs_eq_map]
  refine congrArg _ (List.map_congr_left fun q hq => hplans scope p cur cur' hp hscope htwins q hq ?_)
  refine hstops.imp_right fun hstops => ⟨fun d hd => ?_, fun d hd => ?_⟩
  · exact hstops.1 d (mem_demandsOf.2 ⟨q, hq, hd⟩)
  · exact hstops.2 d (mem_demandsOf.2 ⟨q, hq, hd⟩)

end Plan

namespace Rule
variable {v : Validator} {m : Member} {x : Object} {strict : Bool} {j j' : Json}

mutual

theorem independent_plan (h : v.Replaces m j j') : ∀ r : Rule, Plan.Independent v m x strict j j' r.plan
  | condition op operand =>
    Plan.independent_ask h fun scope => Leaf.path_member_compare scope none op operand ▸ List.prefix_rfl
  | property p op operand =>
    Plan.independent_ask h fun scope => Leaf.path_member_compare scope (some p) op operand ▸ List.prefix_rfl
  | presence _ => Plan.independent_ask h fun scope => ⟨_, scope.splitProperty_join⟩
  | bind m body => fun scope p cur cur' hp hscope =>
    (independent_plan h body).along h m.path (scope.adoptNames m) p cur cur' hp hscope
  | group k rules =>
    Plan.Independent.within h (fun _ _ _ => nofun) (Plan.independent_connect k (independent_plans h rules))
  | elements _ rules => Plan.Independent.forEach h (Plan.independent_connect .and (independent_plans h rules))
  | explain _ body => Plan.Independent.within h (fun _ _ _ => nofun) (independent_plan h body)

theorem independent_plans (h : v.Replaces m j j') : ∀ (rs : List Rule) (scope : Member) (p : Path)
    (cur cur' : Cursor), p <+: scope.path → scope.path.Concrete →
    Candidate.Twins { path := m.path, object := x, strict } (.json j) (.json j') p cur cur' →
    ∀ q ∈ plans rs scope, (m.path <+: p ∨ q.Stops v.terms (.json j) m.path ∧ q.Stops v.terms (.json j') m.path) →
      q.run (v.chain (.candidate m x strict)) cur = q.run (v.chain (.candidate m x strict)) cur'
  | [], _, _, _, _, _, _, _, _, hq => absurd hq List.not_mem_nil
  | r :: rs, scope, p, cur, cur', hp, hscope, htwins, q, hq => by
    rcases List.mem_cons.1 hq with rfl | hq
    · exact independent_plan h r scope p cur cur' hp hscope htwins
    · exact independent_plans h rs scope p cur cur' hp hscope htwins q hq

end

/-- Without trees a rule stops wherever it is asked to. -/
theorem stops_plan {r : Rule} (hr : r.everywhere stepsOnce = true) (t : Terms) (o : Object) (m : Path) :
    (r.plan .root).Stops t o m := by
  intro d hd
  obtain ⟨container, body, -, htree⟩ := (everywhere_plan shapes_stepsOnce .root hr).of_mem_demands hd
  by_cases hm : m <+: d.1
  · exact .inl hm
  · exact .inr fun x hx hpre => Terms.eq_of_mem_found? htree hm hx hpre

end Rule

namespace Validator

theorem Replaces.run_eq {v : Validator} {m : Member} {j j' : Json} (h : v.Replaces m j j') (x : Object) (strict : Bool)
    (hstops : (v.rule.plan .root).Stops v.terms (.json j) m.path)
    (hstops' : (v.rule.plan .root).Stops v.terms (.json j') m.path) :
    v.run (.json j) (.candidate m x strict) = v.run (.json j') (.candidate m x strict) := by
  have hroot : Member.root.path.Concrete := fun k hk => absurd hk List.not_mem_nil
  refine run_congr rfl ?_
  exact Rule.independent_plan h v.rule .root [] _ _ List.nil_prefix hroot (.start ..) (.inr ⟨hstops, hstops'⟩)

/-- What a candidate replaces makes no difference to how it is judged, unless the rules expand to
something strictly inside the place, which only trees do. A tree through the place is judged by
nothing but what is to be replaced. -/
theorem prevalidate_independent (v : Validator) {doc other : Json} {m : Member} (x : Object) (hdoc : doc.WellFormed)
    (hother : other.WellFormed) (hm : m.path.Literal) (hat : (v.terms.registry.find? (.json doc) m.path).isSome = true)
    (hstandard : v.terms.registry = .standard) (hpolicy : v.terms.settings.existence ≠ .abort) :
    let doc' := (Json.put other m.path doc).1
    ((v.rule.plan .root).Stops v.terms (.json doc) m.path → (v.rule.plan .root).Stops v.terms (.json doc') m.path →
      v.prevalidate (.json doc) m x = v.prevalidate (.json doc') m x ∧
      v.prevalidateStrict (.json doc) m x = v.prevalidateStrict (.json doc') m x) ∧
    (v.rule.everywhere Rule.stepsOnce = true →
      v.prevalidate (.json doc) m x = v.prevalidate (.json doc') m x ∧
      v.prevalidateStrict (.json doc) m x = v.prevalidateStrict (.json doc') m x) ∧
    ∀ (q : Quantifier) (s : String) (depth? : Option Nat) (op : Operator) (value : Value),
      v.rule = .comparing (.tree q (.name s) depth?) op value → m = { path := [.name s] } →
        v.prevalidate (.json doc) m x = v.validateMember (.json doc) m := by
  intro doc'
  rw [← Registry.isSome_at?] at hat
  have hput : Json.put other m.path doc = (doc', true) := Prod.ext rfl (Json.put_of_at? hm hat)
  have h : v.Replaces m doc doc' :=
    ⟨hstandard, hpolicy, hm, .of_put hput hat, hdoc, Json.wellFormed_put hput hdoc hother⟩
  refine ⟨fun hstops hstops' => ?_, fun hsteps => ?_, ?_⟩
  · exact ⟨h.run_eq x false hstops hstops', h.run_eq x true hstops hstops'⟩
  · have hstops := Rule.stops_plan hsteps v.terms (.json doc) m.path
    have hstops' := Rule.stops_plan hsteps v.terms (.json doc') m.path
    exact ⟨h.run_eq x false hstops hstops', h.run_eq x true hstops hstops'⟩
  · rintro q s depth? op value hrule rfl
    exact prevalidate_tree hrule (.json doc) x

/-- Whatever a price was, it is the new one that must exceed the limit; what a tree through a name
finds below it is the old value. -/
theorem prevalidate_independent_price :
    let limit : Operand := .member { path := [.name "limit"] }
    let r : Rule :=
      .bind { path := [.name "items", .expand (.each .all), .name "price"] } (.condition (.compare .gt) limit)
    let v : Validator := { rule := r, terms := { settings := { existence := .safe } } }
    let w : Validator := { rule := .comparing (.tree .all (.name "kids") none) (.compare .gt) (.int 0) }
    let doc : Json := .object [("items", .list [.object [("price", .int 3)]]), ("limit", .int 2)]
    let doc' : Json := .object [("items", .list [.object [("price", .null)]]), ("limit", .int 2)]
    let m : Member := { path := [.name "items", .index 0, .name "price"] }
    let tree : Json := .object [("kids", .list [.int (-1)])]
    let kids : Member := { path := [.name "kids"] }
    (doc.WellFormed ∧ m.path.Literal ∧ (v.terms.registry.find? (.json doc) m.path).isSome = true ∧
      v.terms.settings.existence ≠ .abort ∧ v.rule.everywhere Rule.stepsOnce = true ∧
      (v.rule.plan .root).Stops v.terms (.json doc) m.path ∧ (v.rule.plan .root).Stops v.terms (.json doc') m.path) ∧
    v.prevalidate (.json doc) m (.json (.int 1)) = v.prevalidate (.json doc') m (.json (.int 1)) ∧
    v.prevalidateStrict (.json doc) m (.json (.int 1)) = v.prevalidateStrict (.json doc') m (.json (.int 1)) ∧
    (v.prevalidate (.json doc) m (.json (.int 1))).status = .fail ∧
    w.prevalidate (.json tree) kids (.json (.list [])) = w.validateMember (.json tree) kids := by
  intro limit r v w doc doc' m tree kids
  have hdoc : doc.WellFormed := by decide
  have hother : Json.null.WellFormed := by decide
  have hm : m.path.Literal := by simp [m, Path.Literal, Key.isLiteral]
  have hat : (v.terms.registry.find? (.json doc) m.path).isSome = true := by decide
  have hpolicy : v.terms.settings.existence ≠ .abort := by decide
  have hsteps : v.rule.everywhere Rule.stepsOnce = true := by decide
  have hstops := Rule.stops_plan hsteps v.terms (.json doc) m.path
  have hstops' := Rule.stops_plan hsteps v.terms (.json doc') m.path
  have h := prevalidate_independent v (.json (.int 1)) hdoc hother hm hat rfl hpolicy
  have htree : tree.WellFormed := by decide
  have hkids : (w.terms.registry.find? (.json tree) kids.path).isSome = true := by decide
  have h' := prevalidate_independent w (.json (.list [])) htree hother (literal_singleton "kids") hkids rfl (by decide)
  exact ⟨⟨hdoc, hm, hat, hpolicy, hsteps, hstops, hstops'⟩, (h.1 hstops hstops').1, (h.2.1 hsteps).2, by decide,
    h'.2.2 .all "kids" none (.compare .gt) (.int 0) rfl rfl⟩

/-- The children of a node are to be dropped, and the answer is theirs. -/
theorem prevalidate_depends_on_children :
    let r : Rule := .elements (.tree .all (.name "kids") none)
      [.bind { path := [.name "v"] } (.condition (.compare .gt) (.value (.int 0)))]
    let v : Validator := { rule := r }
    let doc : Json := .object [("kids", .list [.object [("v", .int 1)]]), ("v", .int 1)]
    let other : Json := .list [.object [("v", .int (-1))]]
    let m : Member := { path := [.name "kids"] }
    (v.terms.registry.find? (.json doc) m.path).isSome = true ∧ v.terms.settings.existence ≠ .abort ∧
      (v.prevalidate (.json doc) m (.json (.list []))).status = .success ∧
      (v.prevalidate (.json (Json.put other m.path doc).1) m (.json (.list []))).status = .fail := by
  decide

end Validator

end Conform
