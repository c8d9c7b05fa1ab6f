import Conform.Proofs.Demands
import Conform.Proofs.Policies

/-!
# Checking a candidate and checking it afterwards

A prevalidating pass looks at the object before the write and crosses over to the candidate where
paths lead into it. `Rehearses` relates its cursors to those of a later pass over the object with
the candidate in its place. The two passes agree (`Plan.run_rehearsed`) if every demand on
elements that is made outside the candidate finds the same places before and after, and no element
of it lies inside the candidate (`Terms.Settled`).
-/

namespace Conform

/-! ### Cursors before and after -/

structure Registry.Stores (r : Registry) (before after : Object) (m : Path) (x : Object) : Prop where
  literal : m.Literal
  at_eq : r.at? after m = some x
  wellFormed_before : before.WellFormed
  wellFormed_after : after.WellFormed

namespace Candidate

/-- The cursor stands in the object before the write, not inside the place of the candidate. -/
structure Ahead (r : Registry) (cand : Candidate) (before : Object) (p : Path) (cur : Cursor) : Prop where
  stored : cur.origin.candidate? = none
  at_eq : r.at? before p = some cur.origin.object
  outside : cand.path <+: p → p = cand.path

/-- The cursor has crossed over to the candidate. -/
structure Inside (cand : Candidate) (p : Path) (cur cur' : Cursor) : Prop where
  below : cand.path <+: p
  same : cur.origin.object = cur'.origin.object
  entered : p = cand.path → cur.origin.candidate? = some cand.number

/-- From `p`, `cur` reads before the write what `cur'` reads after it. -/
structure Rehearses (r : Registry) (cand : Candidate) (before after : Object) (p : Path) (cur cur' : Cursor) :
    Prop where
  consumed : cur.consumed = p.length
  consumed' : cur'.consumed = p.length
  at_eq : r.at? after p = some cur'.origin.object
  side : cand.Ahead r before p cur ∨ cand.Inside p cur cur'

variable {r : Registry} {cand : Candidate} {before after x : Object} {p q : Path} {cur cur' : Cursor}

theorem Rehearses.start (r : Registry) (cand : Candidate) (before after : Object) :
    cand.Rehearses r before after [] (.start before) (.start after) where
  consumed := rfl
  consumed' := rfl
  at_eq := rfl
  side := .inl ⟨rfl, rfl, fun h => (List.prefix_nil.1 h).symm⟩

theorem Ahead.stands (h : cand.Ahead r before p cur) (hc : cur.consumed = p.length) (hq : p <+: q) :
    cur.Stands r before q := by
  refine ⟨hc ▸ hq.length_le, ?_⟩
  rw [hc, ← List.prefix_iff_eq_take.1 hq, h.at_eq]

theorem Ahead.isPrefix (h : cand.Ahead r before p cur) (hp : p <+: q) (hq : cand.path <+: q) :
    p <+: cand.path := by
  rcases List.prefix_or_prefix_of_prefix hp hq with h' | h'
  · exact h'
  · exact h.outside h' ▸ List.prefix_rfl

theorem Ahead.isAhead (h : cand.Ahead r before p cur) (hc : cur.consumed = p.length) (hp : p <+: cand.path) :
    cand.isAhead cur = true := by
  rw [Candidate.isAhead, hc, h.stored]
  rcases Nat.lt_or_eq_of_le hp.length_le with hlt | heq
  · simp [hlt]
  · simp [heq]

theorem Inside.isAhead (h : cand.Inside p cur cur') (hc : cur.consumed = p.length) : cand.isAhead cur = false := by
  rw [Candidate.isAhead, hc]
  rcases Nat.lt_or_eq_of_le h.below.length_le with hlt | heq
  · simp [Nat.lt_asymm hlt, Nat.ne_of_gt hlt]
  · have hp := h.entered (h.below.eq_of_length heq).symm
    simp [heq, hp]

theorem Inside.enter (h : cand.Inside p cur cur') (hc : cur.consumed = p.length) : cand.enter cur = cur := by
  rw [Candidate.enter, h.isAhead hc, if_neg Bool.false_ne_true]

/-- What is read from the candidate before the write is read from its place after it. -/
theorem stands_enter (hw : r.Stores before after cand.path cand.object) (h : cand.isAhead cur = true)
    (hq : cand.path <+: q) : (cand.enter cur).Stands r after q := by
  rw [enter, if_pos h]
  refine ⟨hq.length_le, ?_⟩
  show r.at? after (q.take cand.path.length) = some cand.object
  rw [← List.prefix_iff_eq_take.1 hq, hw.at_eq]

theorem enter_candidate? (h : cand.Ahead r before p cur ∨ cand.Inside p cur cur') (hc : cur.consumed = p.length)
    (hp : p <+: cand.path) :
    (cand.enter cur).consumed = cand.path.length ∧ (cand.enter cur).origin.candidate? = some cand.number := by
  rcases h with ha | hi
  · rw [enter, if_pos (ha.isAhead hc hp)]
    exact ⟨rfl, rfl⟩
  · have hpc : p = cand.path := hp.eq_of_length (Nat.le_antisymm hp.length_le hi.below.length_le)
    rw [hi.enter hc]
    exact ⟨hpc ▸ hc, hi.entered hpc⟩

/-- The candidate counts as itself where it is the container and its own element. -/
theorem candidate?_atElement {container : Member} {s : Path} (h : cand.Ahead r before p cur ∨ cand.Inside p cur cur')
    (hc : cur.consumed = p.length) (hp : p <+: container.path) (hcontainer : cand.path <+: container.path)
    (heq : container.path ++ s = cand.path) :
    ((cand.enter cur).atElement container (s, x)).origin.candidate? = some cand.number := by
  have hlen : container.path.length + s.length = cand.path.length := by rw [← List.length_append, heq]
  have hs : s = [] := List.eq_nil_of_length_eq_zero (by have := hcontainer.length_le; omega)
  have hplace : container.path = cand.path := by rw [← heq, hs, List.append_nil]
  obtain ⟨hconsumed, hcandidate⟩ := enter_candidate? h hc (hplace ▸ hp)
  show (if s = [] ∧ container.path.length = (cand.enter cur).consumed then _ else none) = _
  rw [if_pos ⟨hs, by rw [hplace, hconsumed]⟩, hcandidate]

theorem Ahead.element {container : Member} {s : Path} (h : cand.Ahead r before p cur)
    (hx : r.at? before (container.path ++ s) = some x)
    (hout : cand.path <+: container.path ++ s → container.path ++ s = cand.path) :
    cand.Ahead r before (container.path ++ s) (cur.atElement container (s, x)) := by
  refine ⟨?_, hx, hout⟩
  show (if _ then cur.origin.candidate? else none) = none
  rw [h.stored, ite_self]

namespace Rehearses

theorem stands (h : cand.Rehearses r before after p cur cur') (hq : p <+: q) : cur'.Stands r after q := by
  refine ⟨h.consumed' ▸ hq.length_le, ?_⟩
  rw [h.consumed', ← List.prefix_iff_eq_take.1 hq, h.at_eq]

theorem agree (h : cand.Rehearses r before after p cur cur') (hw : r.Stores before after cand.path cand.object)
    {s : Path} (hp : p <+: s) (hs : q <+: s) (hq : cand.path <+: q) : (cand.enter cur).Agree r cur' q := by
  rcases h.side with ha | hi
  -- ahead, both stand in the object after the write; inside, they stand in the same object
  · have hpc := ha.isPrefix hp (hq.trans hs)
    exact .of_stands (stands_enter hw (ha.isAhead h.consumed hpc) hq) (h.stands (hpc.trans hq))
  · rw [hi.enter h.consumed]
    exact .of_eq (h.consumed.trans h.consumed'.symm) hi.same

theorem atElement_inside {container : Member} {s : Path} (h : cand.Rehearses r before after p cur cur')
    (hp : p <+: container.path) (hc : cand.path <+: container.path)
    (hx : r.at? after (container.path ++ s) = some x) :
    cand.Rehearses r before after (container.path ++ s) ((cand.enter cur).atElement container (s, x))
      (cur'.atElement container (s, x)) :=
  ⟨rfl, rfl, hx, .inr ⟨hc.trans (List.prefix_append ..), rfl, candidate?_atElement h.side h.consumed hp hc⟩⟩

end Rehearses

theorem Ahead.atElement {container : Member} {s : Path} {y : Object} (h : cand.Ahead r before p cur)
    (hx : r.at? before (container.path ++ s) = some x) (hy : r.at? after (container.path ++ s) = some y)
    (hout : cand.path <+: container.path ++ s → container.path ++ s = cand.path) :
    cand.Rehearses r before after (container.path ++ s) (cur.atElement container (s, x))
      (cur'.atElement container (s, y)) :=
  ⟨rfl, rfl, hy, .inl (h.element hx hout)⟩

end Candidate

/-! ### Leaves and branches -/

namespace Cursor.Agree
variable {r : Registry} {cur cur' : Cursor} {l : Leaf}

theorem answer (h : cur.Agree r cur' l.member.path) (hl : l.isFixed = true) :
    cur.answer r l = cur'.answer r l := by
  cases l with
  | presence m p? expected => rw [Cursor.answer, Cursor.answer, has (m := m) h]
  | check subject k =>
    have hsees : cur.sees? r k.member.path = cur'.sees? r k.member.path := h.sees
    have hleft : cur.left? r k = cur'.left? r k := by rw [left?_eq, left?_eq, hsees]
    have hright : cur.right? r k = cur'.right? r k := by
      unfold right?
      cases hk : k.operand with
      | value | sample => rfl
      | member m => rw [Leaf.isFixed, hk] at hl; cases hl
    rw [Cursor.answer, Cursor.answer, compare, compare, hleft, hright]

end Cursor.Agree

namespace Chain
variable {c c' : Chain} {cur cur' : Cursor} {l : Leaf}

theorem guarded_agree (hreg : c.registry = c'.registry) (abort : Bool) (hl : l.isFixed = true)
    (h : cur.Agree c.registry cur' l.member.path) :
    c.guarded abort cur l = none ∧ c'.guarded abort cur' l = none ∨
      ∃ l' : Leaf, l'.isFixed = true ∧ l'.member.path = l.member.path ∧
        c.guarded abort cur l = some (cur, l') ∧ c'.guarded abort cur' l = some (cur', l') := by
  cases l with
  | presence m p? expected => exact .inr ⟨_, rfl, rfl, rfl, rfl⟩
  | check subject k =>
    have hhas : ∀ p?, cur.has c.registry k.member p? = cur'.has c'.registry k.member p? := fun p? =>
      hreg ▸ h.has p?
    have hmust : c.mustExist cur k.member k.property? = c'.mustExist cur' k.member k.property? := by
      rw [mustExist, mustExist, missingProperty?, missingProperty?, hhas]
    have hfound : ∀ o, c.registry.find? o k.member.path = c'.registry.find? o k.member.path := fun o => by
      rw [hreg]
    simp only [guarded, hhas, hmust, hfound]
    cases cur'.has c'.registry k.member k.property? with
    | false =>
      cases abort with
      | false => exact .inl ⟨rfl, rfl⟩
      | true => exact .inr ⟨c'.mustExist cur' k.member k.property?, rfl, rfl, rfl, rfl⟩
    | true =>
      cases hk : k.operand with
      | value v => exact .inr ⟨_, hl, rfl, rfl, rfl⟩
      | member m => rw [Leaf.isFixed, hk] at hl; cases hl
      | sample o =>
        cases hs : (c'.registry.find? o k.member.path).isSome with
        | false => exact .inl (by simp [hs])
        | true => exact .inr ⟨_, hl, rfl, by simp [hs]⟩

theorem askThrough_agree (hreg : c.registry = c'.registry) (e : Existence) (hl : l.isFixed = true)
    (h : cur.Agree c.registry cur' l.member.path) :
    c.askThrough ((Layer.ofExistence? e).toList ++ [.reporting]) cur l =
      c'.askThrough ((Layer.ofExistence? e).toList ++ [.reporting]) cur' l := by
  have hreported : ∀ {l : Leaf}, l.isFixed = true → cur.Agree c.registry cur' l.member.path →
      c.askThrough [.reporting] cur l = c'.askThrough [.reporting] cur' l := by
    intro l hl h
    simp only [askThrough, ← hreg, h.answer hl]
  have hguarded : ∀ abort, c.askThrough [.guard abort, .reporting] cur l =
      c'.askThrough [.guard abort, .reporting] cur' l := by
    intro abort
    rcases guarded_agree hreg abort hl h with ⟨hn, hn'⟩ | ⟨l', hl', hm, hs, hs'⟩
    · rw [askThrough, askThrough, hn, hn']
    · rw [askThrough, askThrough, hs, hs']
      exact hreported hl' (hm ▸ h)
  cases e with
  | optimistic => exact hreported hl h
  | safe => exact hguarded false
  | abort => exact hguarded true

/-- A branch that only the reporter is told of. -/
def framed (b : Branch) (run : Pass Status) : Pass Status := do
  Pass.report (·.enter b.frame)
  let s ← run
  Pass.report (·.leave s)
  pure s

theorem aroundThrough_framed (c : Chain) {e : Existence} {b : Branch} (hb : e = .abort → b.frame ≠ .not)
    (cur : Cursor) (body : Cursor → Pass Status) :
    c.aroundThrough ((Layer.ofExistence? e).toList ++ [.reporting]) cur b body = framed b (body cur) := by
  cases e with
  | optimistic | safe => rfl
  | abort =>
    cases b with
    | elements | explained => rfl
    | group k scope rules =>
      cases k with
      | and | or => rfl
      | not => exact absurd rfl (hb rfl)

end Chain

theorem Branch.frame_elements_ne (q : Quantifier) (container : Member) :
    (Branch.elements q container).frame ≠ .not := by
  cases q <;> simp [frame]

/-! ### Passes before and after -/

theorem Layer.covers_literal {pattern : Path} (h : pattern.Literal) (l : Leaf) :
    covers pattern l = Path.covers pattern l.member.path := by
  rw [covers]
  cases hp : l.property? with
  | none => exact Bool.or_false _
  | some p =>
    have hprefix : Path.covers pattern (l.member.path ++ [.property p]) = true →
        Path.covers pattern l.member.path = true := by
      rw [Path.covers_iff h, Path.covers_iff h, List.prefix_concat_iff]
      rintro (rfl | h')
      · exact absurd (h (.property p) (by simp)) (by simp [Key.isLiteral])
      · exact h'
    rw [Option.map_some, Option.getD_some, Bool.or_eq_left_iff_imp.2 hprefix]

theorem Leaf.operand?_of_isFixed {l : Leaf} (hl : l.isFixed = true) : l.operand? = none := by
  cases l with
  | presence => rfl
  | check subject k =>
    obtain ⟨m, p?, op, operand⟩ := k
    cases operand with
    | value | sample => rfl
    | member => cases hl

theorem Candidate.redirect?_fixed (cand : Candidate) (cur : Cursor) {l : Leaf} (hl : l.isFixed = true) :
    cand.redirect? cur l = if cand.holds l.member.path then some (cand.enter cur) else none := by
  unfold redirect?
  rw [Leaf.operand?_of_isFixed hl]
  cases cand.holds l.member.path <;> rfl

namespace Validator
variable {v : Validator} {m : Member} {x : Object}

theorem ask_member (hm : m.path.Literal) (cur : Cursor) (l : Leaf) :
    (v.chain (.member m)).ask cur l =
      if m.path.covers l.member.path then
        (v.chain (.member m)).askThrough ((Layer.ofExistence? v.terms.settings.existence).toList ++ [.reporting]) cur l
      else pure .success := by
  rw [Chain.ask, layers_chain, ← Layer.covers_literal hm]
  rfl

theorem ask_candidate {strict : Bool} {cur : Cursor} {l : Leaf} (hl : l.isFixed = true) :
    (v.chain (.candidate m x strict)).ask cur l =
      if m.path.covers l.member.path then
        (v.chain (.candidate m x strict)).askThrough
          ((Layer.ofExistence? v.terms.settings.existence).toList ++ [.reporting])
          (Candidate.enter { path := m.path, object := x, strict } cur) l
      else pure .success := by
  rw [Chain.ask, layers_chain, Filter.layers, List.singleton_append, Chain.askThrough_candidate,
    Candidate.redirect?_fixed _ _ hl, Candidate.holds]
  cases m.path.covers l.member.path <;> rfl

theorem around_member (cur : Cursor) {b : Branch} (hb : v.terms.settings.existence = .abort → b.frame ≠ .not)
    (body : Cursor → Pass Status) :
    (v.chain (.member m)).around cur b body = Chain.framed b (body cur) := by
  rw [Chain.around, layers_chain]
  exact Chain.aroundThrough_framed _ hb cur body

theorem around_candidate {strict : Bool} (cur : Cursor) {b : Branch}
    (hb : v.terms.settings.existence = .abort → b.frame ≠ .not) (hplain : ∀ q c, b ≠ .elements q c)
    (body : Cursor → Pass Status) :
    (v.chain (.candidate m x strict)).around cur b body = Chain.framed b (body cur) := by
  rw [Chain.around, layers_chain]
  cases b with
  | elements q c => exact absurd rfl (hplain q c)
  | group | explained => exact Chain.aroundThrough_framed _ hb cur body

theorem around_candidate_elements {strict : Bool} (cur : Cursor) (q : Quantifier) (container : Member)
    (body : Cursor → Pass Status) :
    (v.chain (.candidate m x strict)).around cur (.elements q container) body =
      Chain.framed (.elements q container)
        (body (if m.path.covers container.path then
          Candidate.enter { path := m.path, object := x, strict } cur else cur)) := by
  rw [Chain.around, layers_chain]
  exact Chain.aroundThrough_framed _ (fun _ => Branch.frame_elements_ne q container) _ body

theorem passes_member (m' : Member) (s : Status) : (v.chain (.member m)).passes m' s = s.isSuccess :=
  v.passes_chain ..

theorem passes_candidate (m' : Member) (s : Status) :
    (v.chain (.candidate m x false)).passes m' s = s.isSuccess :=
  v.passes_chain ..

theorem passes_eq (m' : Member) (s : Status) :
    (v.chain (.candidate m x false)).passes m' s = (v.chain (.member m)).passes m' s :=
  (passes_candidate m' s).trans (passes_member m' s).symm

end Validator

/-! ### Elements before and after -/

namespace Validator
variable {v : Validator} {m container : Member} {e : Expansion} {x before after : Object} {p : Path}
  {cur cur' : Cursor} {body body' : Eval}

theorem found?_after (h : Candidate.Rehearses v.terms.registry { path := m.path, object := x } before after p cur cur')
    (hp : p <+: container.path) :
    cur'.found? (v.chain (.member m)).terms container.path e = v.terms.found? after container.path e :=
  (h.stands hp).found? e

theorem overElements_inside (hw : v.terms.registry.Stores before after m.path x) (hp : p <+: container.path)
    (h : Candidate.Rehearses v.terms.registry { path := m.path, object := x } before after p cur cur')
    (hc : m.path <+: container.path)
    (hbody : ∀ y ∈ (v.terms.found? after container.path e).getD [], ∀ {cur cur'},
      Candidate.Rehearses v.terms.registry { path := m.path, object := x } before after (container.path ++ y.1)
        cur cur' →
      body cur (container.element y.1 e.display?) = body' cur' (container.element y.1 e.display?)) :
    (v.chain (.candidate m x false)).overElements container e body
        (Candidate.enter { path := m.path, object := x } cur) =
      (v.chain (.member m)).overElements container e body' cur' := by
  have hfound : (Candidate.enter { path := m.path, object := x } cur).found?
      (v.chain (.candidate m x false)).terms container.path e = v.terms.found? after container.path e :=
    (congrArg (Option.bind · _) (h.agree hw hp List.prefix_rfl hc).sees).trans (found?_after h hp)
  refine Chain.overElements_congr rfl passes_eq (hfound.trans (found?_after h hp).symm) fun y hy => ?_
  rw [hfound] at hy
  exact hbody y hy (h.atElement_inside hp hc (Terms.at?_of_mem_found? hw.wellFormed_after hy))

theorem overElements_ahead (hw : v.terms.registry.Stores before after m.path x) (hp : p <+: container.path)
    (h : Candidate.Rehearses v.terms.registry { path := m.path, object := x } before after p cur cur')
    (hc : ¬ m.path <+: container.path) (hsettled : v.terms.Settled before after m.path container.path e)
    (hbody : ∀ y ∈ (v.terms.found? after container.path e).getD [], ∀ {cur cur'},
      Candidate.Rehearses v.terms.registry { path := m.path, object := x } before after (container.path ++ y.1)
        cur cur' →
      body cur (container.element y.1 e.display?) = body' cur' (container.element y.1 e.display?)) :
    (v.chain (.candidate m x false)).overElements container e body cur =
      (v.chain (.member m)).overElements container e body' cur' := by
  -- whoever is inside the candidate already expands nothing outside of it
  have ha := h.side.resolve_right fun hi => hc (hi.below.trans hp)
  obtain ⟨hplaces, hout⟩ := hsettled.resolve_left hc
  have hfound : cur.found? (v.chain (.candidate m x false)).terms container.path e =
      v.terms.found? before container.path e := (ha.stands h.consumed hp).found? e
  refine Chain.overElements_congr_places rfl passes_eq ?_ fun s y y' hy hy' => ?_
  · rw [hfound, found?_after h hp, hplaces]
  · rw [hfound] at hy
    rw [found?_after h hp] at hy'
    have hat := Terms.at?_of_mem_found? hw.wellFormed_before hy
    have hat' := Terms.at?_of_mem_found? hw.wellFormed_after hy'
    exact hbody (s, y') hy' (ha.atElement hat hat' (hout (s, y') hy'))

end Validator

/-- A pass that checks a candidate runs a plan as a pass over the object with the candidate in place
does, as long as the demands of the plan are settled. -/
theorem Plan.run_rehearsed {v : Validator} {m : Member} {x before after : Object} {p : Path} {cur cur' : Cursor}
    (hw : v.terms.registry.Stores before after m.path x) {plan : Plan}
    (hbelow : plan.Below v.terms.settings.existence p)
    (hsettled : ∀ d ∈ plan.demands v.terms after, v.terms.Settled before after m.path d.1 d.2)
    (h : Candidate.Rehearses v.terms.registry { path := m.path, object := x } before after p cur cur') :
    plan.run (v.chain (.candidate m x false)) cur = plan.run (v.chain (.member m)) cur' := by
  -- `Rehearses` is what every step of the two passes keeps
  induction plan generalizing p cur cur' with
  | ask l =>
    cases hbelow with
    | ask hp hl =>
      rw [run, run, Validator.ask_candidate hl, Validator.ask_member hw.literal]
      by_cases hc : m.path <+: l.member.path
      · have hagree := h.agree hw hp (List.prefix_append ..) hc
        rw [if_pos ((Path.covers_iff hw.literal).2 hc), if_pos ((Path.covers_iff hw.literal).2 hc)]
        have hregistry : (v.chain (.candidate m x false)).registry = (v.chain (.member m)).registry := rfl
        exact Chain.askThrough_agree hregistry _ hl hagree
      · rw [if_neg (mt (Path.covers_iff hw.literal).1 hc), if_neg (mt (Path.covers_iff hw.literal).1 hc)]
  | connect k plans ih =>
    cases hbelow with
    | connect hplans =>
      have hrun : ∀ q ∈ plans, q.run (v.chain (.candidate m x false)) cur = q.run (v.chain (.member m)) cur' :=
        fun q hq => ih q hq (hplans q hq) (fun d hd => hsettled d (mem_demandsOf.2 ⟨q, hq, hd⟩)) h
      rw [run, run, runs_eq_map, runs_eq_map, List.map_congr_left hrun]
  | within b body ih =>
    cases hbelow with
    | within hb hplain hbody =>
      rw [run, run, Validator.around_candidate cur hb hplain, Validator.around_member cur' hb,
        ih hbody hsettled h]
  | forEach container e body ih =>
    cases hbelow with
    | forEach hp hbody =>
      have hcontainer := hsettled (container.path, e) (List.mem_cons_self ..)
      have helement : ∀ y ∈ (v.terms.found? after container.path e).getD [], ∀ {cur cur'},
          Candidate.Rehearses v.terms.registry { path := m.path, object := x } before after
            (container.path ++ y.1) cur cur' →
          (body (container.element y.1 e.display?)).run (v.chain (.candidate m x false)) cur =
            (body (container.element y.1 e.display?)).run (v.chain (.member m)) cur' :=
        fun y hy _ _ h => ih _ (hbody y.1 e.display?)
          (fun d hd => hsettled d (mem_demands_forEach.2 (.inr ⟨y, hy, hd⟩))) h
      rw [run, run, Chain.demand, Chain.demand, Validator.around_candidate_elements,
        Validator.around_member _ fun _ => Branch.frame_elements_ne _ _]
      refine congrArg (Chain.framed (.elements e.quantifier container)) ?_
      by_cases hc : m.path <+: container.path
      · rw [if_pos ((Path.covers_iff hw.literal).2 hc)]
        exact Validator.overElements_inside hw hp h hc helement
      · rw [if_neg (mt (Path.covers_iff hw.literal).1 hc)]
        exact Validator.overElements_ahead hw hp h hc hcontainer helement

/-- A candidate is judged as it is judged once it is in its place, if the write moves none of the
elements that the rule demands. -/
theorem Validator.prevalidate_eq_validateMember {v : Validator} {m : Member} {x before after : Object}
    (hw : v.terms.registry.Stores before after m.path x) (hfixed : v.rule.isFixed = true)
    (hpositive : v.terms.settings.existence = .abort → v.rule.isPositive = true)
    (hsteady : v.rule.Steady v.terms before after m.path) :
    v.prevalidate before m x = v.validateMember after m := by
  refine run_congr rfl ?_
  exact Plan.run_rehearsed hw (Rule.below_plan .root hfixed hpositive) hsteady (.start ..)

end Conform
