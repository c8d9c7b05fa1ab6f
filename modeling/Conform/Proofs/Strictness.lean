import Conform.Proofs.Mentioned
import Conform.Proofs.Policies

/-!
# Missing members as failures

Under the abort policy what is missing is a failure and not ignored. Where nothing is missing the
policy cannot be told from the safe one, whatever the rule; and a rule that does not fan out under a
negation fails under it or is answered as under the safe one (`Validator.abort_adds_failures`), since
before a negation all that its rules read is looked for.
-/

namespace Conform

/-! ### What a guard misses -/

namespace Chain

/-- Whether a guard misses the member of a leaf, the property of it, or its operand. -/
def lacks (c : Chain) (cur : Cursor) : Leaf → Bool
  | .presence .. => false
  | .check _ k =>
    !cur.has c.registry k.member k.property? ||
      match k.operand with
      | .member other => !cur.hasOperand c.registry other
      | .value _ | .sample _ => false

/-- Whether a guard misses something of what the rules under a negation mention. -/
def lacksBefore (c : Chain) (cur : Cursor) : Branch → Bool
  | .group .not scope rules =>
    (c.missingMember? cur (Mentions.ofRules scope rules).members).isSome ||
      (c.missingOperand? cur (Mentions.ofRules scope rules).operands).isSome
  | _ => false

end Chain

/-- Whether a guard misses something before it lets a part of a plan go on. -/
def Plan.lacks (c : Chain) (cur : Cursor) : Plan → Bool
  | ask l => c.lacks cur l
  | within b _ => c.lacksBefore cur b
  | connect .. | forEach .. => false

namespace Chain
variable {c c' : Chain} {cur : Cursor} {l : Leaf} {m : Member} {p? : Option Property} {subject : Subject} {k : Check}

open Pass

theorem guarded_of_not_lacks (h : c.lacks cur l = false) (hreg : c.registry = c'.registry) (abort : Bool) :
    c.guarded abort cur l = c'.guarded false cur l := by
  cases l with
  | presence => rfl
  | check subject k =>
    rw [lacks, Bool.or_eq_false_iff, Bool.not_eq_false'] at h
    obtain ⟨hhas, hoperand⟩ := h
    cases hk : k.operand with
    | value | sample => simp [guarded, ← hreg, hhas, hk]
    | member other =>
      simp only [hk, Bool.not_eq_false'] at hoperand
      simp [guarded, ← hreg, hhas, hk, hoperand]

theorem has_missingProperty? (h : cur.has c.registry m p? = false) :
    cur.has c.registry m (c.missingProperty? cur m p?) = false := by
  unfold missingProperty?
  split
  · exact h
  next hnone => exact Bool.not_eq_true _ ▸ hnone

theorem answer_mustExist (h : cur.has c.registry m p? = false) :
    cur.answer c.registry (c.mustExist cur m p?) = .fail := by
  rw [mustExist, Cursor.answer, has_missingProperty? h]
  rfl

theorem answer_operandMustExist (hm : m.path.Concrete) (h : cur.hasOperand c.registry m = false) :
    (c.operandMustExist cur m).1.answer c.registry (c.operandMustExist cur m).2 = .fail := by
  refine answer_mustExist ?_
  rw [Cursor.has_splitProperty]
  refine Bool.eq_false_iff.2 fun hat => ?_
  have hsees : cur.fromOperands.has c.registry m none = true := Cursor.has_of_hasAt hat
  rw [Cursor.has_none_concrete _ _ hm, ← Cursor.hasOperand_eq, h] at hsees
  cases hsees

theorem guarded_of_not_has (hhas : cur.has c.registry k.member k.property? = false) :
    c.guarded true cur (.check subject k) = some (cur, c.mustExist cur k.member k.property?) := by
  simp [guarded, hhas]

theorem guarded_of_not_hasOperand (hhas : cur.has c.registry k.member k.property? = true) (hk : k.operand = .member m)
    (hoperand : cur.hasOperand c.registry m = false) :
    c.guarded true cur (.check subject k) = some (c.operandMustExist cur m) := by
  simp [guarded, hhas, hk, hoperand]

/-- A missing single operand, like a missing member, is asked for where it is not. -/
theorem guarded_of_lacks (ho : ∀ m, l.operand? = some m → m.path.Concrete) (h : c.lacks cur l = true) :
    ∃ q, c.guarded true cur l = some q ∧ q.1.answer c.registry q.2 = .fail := by
  cases l with
  | presence => cases h
  | check subject k =>
    cases hhas : cur.has c.registry k.member k.property? with
    | false => exact ⟨_, guarded_of_not_has hhas, answer_mustExist hhas⟩
    | true =>
      rw [lacks, hhas] at h
      cases hk : k.operand with
      | value | sample => rw [hk] at h; cases h
      | member other =>
        have hother : cur.hasOperand c.registry other = false := by simpa [hk] using h
        have hconcrete : other.path.Concrete := by
          obtain ⟨_, _, _, operand⟩ := k
          cases hk
          exact ho other rfl
        exact ⟨_, guarded_of_not_hasOperand hhas hk hother, answer_operandMustExist hconcrete hother⟩

/-! ### Leaves behind the filter -/

end Chain

namespace Validator
variable {v : Validator} {c : Chain} {cur : Cursor} {l : Leaf} {q : Cursor × Leaf}

/-- A leaf that lacks nothing is answered as it is, also behind a guard. -/
theorem verdict_behind_of_not_lacks (h : v.terms.settings.existence = .abort → c.lacks cur l = false) :
    Pass.verdict (c.askThrough v.behind cur l) = cur.answer c.registry l := by
  have hsafe : Pass.verdict (c.askThrough [.guard false, .reporting] cur l) = cur.answer c.registry l := by
    have hguard : c.askThrough [.guard false, .reporting] cur l = c.askThrough [.reporting] cur l :=
      Chain.askThrough_guard rfl cur l
    rw [hguard]
    rfl
  rw [behind]
  cases hpolicy : v.terms.settings.existence with
  | optimistic => rfl
  | safe => exact hsafe
  | abort =>
    rw [← hsafe, Chain.askThrough, ← Chain.guarded_of_not_lacks (h hpolicy) rfl true]
    rfl

theorem verdict_behind_of_guarded (hpolicy : v.terms.settings.existence = .abort) (hq : c.guarded true cur l = some q) :
    Pass.verdict (c.askThrough v.behind cur l) = q.1.answer c.registry q.2 := by
  rw [behind, hpolicy, Layer.ofExistence?, Option.toList_some, List.singleton_append, Chain.askThrough, hq]
  rfl

theorem verdict_behind_of_not_has {subject : Subject} {k : Check} (hpolicy : v.terms.settings.existence = .abort)
    (hhas : cur.has c.registry k.member k.property? = false) :
    Pass.verdict (c.askThrough v.behind cur (.check subject k)) = .fail :=
  (verdict_behind_of_guarded hpolicy (Chain.guarded_of_not_has hhas)).trans (Chain.answer_mustExist hhas)

end Validator

/-! ### Guards -/

namespace Chain
variable {c c' : Chain} {cur : Cursor} {l : Leaf} {m : Member} {p? : Option Property}

open Pass

/-- Two chains that do nothing but look for what is missing; the first takes it for a failure. -/
structure Guards (c c' : Chain) : Prop where
  abort : c.layers = [.guard true, .reporting]
  safe : c'.layers = [.guard false, .reporting]
  registry : c.registry = c'.registry
  depth : c.settings.maxTreeDepth? = c'.settings.maxTreeDepth?
  allEmpty : c.settings.allEmpty = c'.settings.allEmpty

theorem verdict_ask_guard {abort : Bool} (hc : c.layers = [.guard abort, .reporting]) :
    verdict (c.ask cur l) = ((c.guarded abort cur l).map fun q => q.1.answer c.registry q.2).getD .ignore := by
  rw [ask, hc, askThrough]
  cases c.guarded abort cur l <;> rfl

theorem missingMember?_eq_none_iff {members : List Member} :
    c.missingMember? cur members = none ↔ ∀ m ∈ members, cur.hasAt c.registry m.path = true := by
  simp [missingMember?, Cursor.has_splitProperty]

theorem missingMember?_some {members : List Member} {q : Cursor × Leaf} (hq : c.missingMember? cur members = some q) :
    ∃ m ∈ members, cur.has c.registry m.splitProperty.1 m.splitProperty.2 = false ∧
      q = (cur, c.mustExist cur m.splitProperty.1 m.splitProperty.2) := by
  obtain ⟨x, hx, rfl⟩ := Option.map_eq_some_iff.1 hq
  obtain ⟨m, hm, rfl⟩ := List.mem_map.1 (List.mem_of_find?_eq_some hx)
  have hmissing := List.find?_some hx
  rw [Bool.not_eq_true'] at hmissing
  exact ⟨m, hm, hmissing, rfl⟩

theorem lacksBefore_iff {scope : Member} {rules : List Rule} : c.lacksBefore cur (.group .not scope rules) = false ↔
    (Mentions.ofRules scope rules).Hold (fun p => cur.hasAt c.registry p = true)
      (fun p => (cur.fromOperands.sees? c.registry p).isSome = true) := by
  have hmembers : ∀ members, (c.missingMember? cur members).isSome = false ↔
      ∀ m ∈ members, cur.hasAt c.registry m.path = true := fun members => by
    rw [Option.isSome_eq_false_iff, Option.isNone_iff_eq_none, missingMember?_eq_none_iff]
  have hoperands : ∀ operands, (c.missingOperand? cur operands).isSome = false ↔
      ∀ m ∈ operands, (cur.fromOperands.sees? c.registry m.path).isSome = true := fun operands => by
    simp [missingOperand?, Cursor.hasOperand_eq, Option.isSome_iff_ne_none]
  rw [lacksBefore, Bool.or_eq_false_iff, hmembers, hoperands]
  exact ⟨fun h => ⟨h.1, h.2⟩, fun h => ⟨h.members, h.operands⟩⟩

namespace Guards
variable {scope : Member} {rules : List Rule} {b : Branch} {p q : Plan} {cur' : Cursor}

theorem passes_eq (h : Guards c c') (m : Member) (s : Status) :
    c.passes m s = s.isSuccess ∧ c'.passes m s = s.isSuccess := by
  rw [passes, passes, h.abort, h.safe]
  exact ⟨rfl, rfl⟩

theorem ask_eq (h : Guards c c') (hl : c.lacks cur l = false) : c.ask cur l = c'.ask cur l := by
  rw [ask, ask, h.abort, h.safe, askThrough, askThrough, guarded_of_not_lacks hl h.registry]
  cases c'.guarded false cur l with
  | none => rfl
  | some q => simp only [askThrough, h.registry]

theorem verdict_ask_of_lacks (h : Guards c c') (ho : ∀ m, l.operand? = some m → m.path.Concrete)
    (hl : c.lacks cur l = true) : verdict (c.ask cur l) = .fail := by
  obtain ⟨q, hq, hfail⟩ := guarded_of_lacks ho hl
  rw [verdict_ask_guard h.abort, hq]
  exact hfail

theorem verdict_mustExist (h : Guards c c') (hm : cur.answer c.registry (c.mustExist cur m p?) = .fail) :
    verdict (c.ask cur (c.mustExist cur m p?)) = .fail := by
  rw [verdict_ask_guard h.abort]
  exact hm

/-- What is missing before a negation is asked for, and the answer is a failure. -/
theorem verdict_precheck (h : Guards c c') (hb : c.lacksBefore cur (.group .not scope rules) = true) :
    verdict (c.precheck cur scope rules) = .fail := by
  rw [precheck, verdict_bind]
  · cases hmember : c.missingMember? cur (Mentions.ofRules scope rules).members with
    | some q =>
      obtain ⟨m, -, hmissing, rfl⟩ := missingMember?_some hmember
      have hfail : verdict (c.askIfAny (some (cur, c.mustExist cur m.splitProperty.1 m.splitProperty.2))) = .fail :=
        h.verdict_mustExist (answer_mustExist hmissing)
      rw [hfail]
      rfl
    | none =>
      rw [lacksBefore, hmember] at hb
      obtain ⟨q, hoperand⟩ := Option.isSome_iff_exists.1 hb
      obtain ⟨x, hx, rfl⟩ := Option.map_eq_some_iff.1 hoperand
      have hmissing : cur.hasOperand c.registry x = false := by simpa using List.find?_some hx
      have hnone : ∀ m ∈ Mentions.empty.operands, m.path.Concrete := fun m hm => absurd hm List.not_mem_nil
      have hconcrete : x.path.Concrete :=
        Mentions.concrete_operands_rules rules scope hnone x (List.mem_of_find?_eq_some hx)
      rw [hoperand]
      exact h.verdict_mustExist (answer_operandMustExist hconcrete hmissing)
  · intro s
    split
    · exact c.blind_askIfAny _
    · exact blind_pure s

theorem precheck_eq (hb : c.lacksBefore cur (.group .not scope rules) = false) :
    c.precheck cur scope rules = pure .success := by
  obtain ⟨hmember, hoperand⟩ := Bool.or_eq_false_iff.1 hb
  rw [Option.isSome_eq_false_iff, Option.isNone_iff_eq_none] at hmember hoperand
  rw [precheck, hmember, hoperand]
  rfl

theorem around_eq (h : Guards c c') (hb : c.lacksBefore cur b = false) (body : Cursor → Pass Status) :
    c.around cur b body = c'.around cur b body := by
  rw [around, around, h.abort, h.safe]
  cases b with
  | elements | explained => rfl
  | group k scope rules =>
    cases k with
    | and | or => rfl
    | not =>
      rw [aroundThrough, precheck_eq hb]
      rfl

theorem enters?_eq (h : Guards c c') (cur : Cursor) (b : Branch) :
    c.enters? cur b = (if c.lacksBefore cur b then none else some cur) ∧ c'.enters? cur b = some cur := by
  rw [enters?, enters?, h.abort, h.safe]
  refine ⟨?_, by cases b <;> rfl⟩
  cases b with
  | elements | explained => rfl
  | group k scope rules =>
    cases k with
    | and | or => rfl
    | not =>
      rw [entersThrough]
      cases hb : c.lacksBefore cur (.group .not scope rules) with
      | true => rw [h.verdict_precheck hb]; rfl
      | false => rw [precheck_eq hb]; rfl

/-! ### Where nothing is missing -/

/-- A pass that never misses anything does not show what would become of it. -/
theorem run_eq [c.HandlerFree] (h : Guards c c')
    (hlacks : ∀ q cur', p.Reaches c cur q cur' → q.lacks c cur' = false) :
    p.run c cur = p.run c' cur := by
  have hpasses : ∀ m s, c.passes m s = c'.passes m s := fun m s => (h.passes_eq m s).1.trans (h.passes_eq m s).2.symm
  refine Plan.run_congr_reached h.registry h.depth h.allEmpty hpasses fun q cur' hq => ?_
  have hq := hlacks q cur' hq
  cases q with
  | ask l => exact h.ask_eq hq
  | connect => trivial
  | within b body => exact h.around_eq hq
  | forEach container e body => exact h.around_eq rfl

theorem cursor_of_reaches (h : Guards c c') (hp : p.Everywhere (·.isDemand = false)) (hq : p.Reaches c cur q cur') :
    cur' = cur := by
  induction hq with
  | refl => rfl
  | connect hplan _ ih => cases hp with | connect _ hplans => exact ih (hplans _ (mem_of_mem_upTo hplan))
  | @within b body q cur entry cur' hentry _ ih =>
    cases hp with | within _ hbody =>
    rw [(h.enters?_eq cur b).1] at hentry
    split at hentry
    · cases hentry
    · cases hentry
      exact ih hbody
  | forEach => cases hp with | forEach hdemand _ => cases hdemand

theorem lacks_of_reads (hq : q.Reads (fun p => cur.hasAt c.registry p = true)
    (fun p => (cur.fromOperands.sees? c.registry p).isSome = true)) : q.lacks c cur = false := by
  cases q with
  | connect | forEach => rfl
  | within b body =>
    cases b with
    | elements | explained => rfl
    | group k scope rules =>
      cases k with
      | and | or => rfl
      | not => exact lacksBefore_iff.2 hq
  | ask l =>
    cases l with
    | presence => rfl
    | check subject k =>
      obtain ⟨hmember, hoperand⟩ := hq
      have hhas : cur.has c.registry k.member k.property? = true := by
        cases hp : k.property? with
        | none =>
          rw [hp, Option.map_none, Option.toList_none, List.append_nil] at hmember
          exact Cursor.has_of_hasAt hmember
        | some p => rwa [hp, Option.map_some, Option.toList_some, Cursor.hasAt_property] at hmember
      rw [Plan.lacks, lacks, hhas]
      cases hk : k.operand with
      | value | sample => rfl
      | member other =>
        have hother : cur.hasOperand c.registry other = true := by
          rw [Cursor.hasOperand_eq]
          exact hoperand other hk
        simp [hother]

end Guards

end Chain

/-- The cursor stands at or above a place, and operands are followed from the root. -/
structure Cursor.Above (cur : Cursor) (p : Path) : Prop where
  concrete : p.Concrete
  le : cur.consumed ≤ p.length
  operands : cur.operandOrigin? = none

namespace Cursor.Above
variable {cur : Cursor} {r : Registry} {p q : Path}

theorem hasAt_root (h : cur.Above []) : cur.hasAt r [] = true := by
  have hsees : cur.sees? r [] = some cur.origin.object := by
    rw [sees?_of_le r h.le, List.drop_nil, Registry.at?_nil]
  exact has_none_of_sees? (m := .root) hsees

theorem sees?_operand_root (h : cur.Above p) : (cur.fromOperands.sees? r []).isSome = true := by
  have hbase : cur.operandBase = ({ object := cur.root }, 0) := by rw [operandBase, h.operands]; rfl
  rw [fromOperands, hbase]
  rfl

theorem append (h : cur.Above p) (hq : q.Concrete) : cur.Above (p ++ q) :=
  ⟨h.concrete.append hq, Nat.le_trans h.le (by simp), h.operands⟩

theorem element {container : Member} {x : Path × Object} (h : cur.Above container.path) (hx : x.1.Concrete)
    (d : Option Key) : (cur.atElement container x).Above (container.element x.1 d).path :=
  ⟨h.concrete.append hx, Nat.le_refl _, h.operands⟩

end Cursor.Above

namespace Chain.Guards
variable {c c' : Chain} {cur : Cursor} {scope : Member} {rules : List Rule}

/-- Where nothing is missing of what a negation mentions, nothing is missing under it. -/
theorem run_not_eq [c.HandlerFree] (h : Guards c c') (hcur : cur.Above scope.path)
    (hl : Rule.everywhereIn Rule.staysHere rules = true)
    (ho : Rule.everywhereIn Rule.hasConcreteOperand rules = true)
    (hb : c.lacksBefore cur (.group .not scope rules) = false) :
    ((Rule.group .not rules).plan scope).run c cur = ((Rule.group .not rules).plan scope).run c' cur := by
  have hP := Mentions.respects_hasAt cur c.registry
  have hQ := Mentions.respects_sees? cur.fromOperands c.registry
  have hroot : scope.path = [] → cur.hasAt c.registry [] = true := fun hs => by
    rw [hs] at hcur
    exact hcur.hasAt_root
  have hreads := (Mentions.hold_rule_iff hP hQ hcur.sees?_operand_root (.group .not rules) .empty hl ho hcur.concrete
    hroot rfl).1 (lacksBefore_iff.1 hb)
  have hlocal := Rule.everywhere_plan (r := .group .not rules) Rule.shapes_staysHere scope hl
  refine h.run_eq fun q cur' hq => ?_
  cases h.cursor_of_reaches hlocal hq
  exact lacks_of_reads (hreads.2.of_reaches hq).self

end Chain.Guards

/-! ### Failures in place of other answers -/

namespace Status

/-- The first answer is the second, or a failure in its place. -/
def Severer (s t : Status) : Prop :=
  s = .fail ∨ s = t

variable {α : Type} {f g : α → Status} {xs : List α}

theorem allOf_of_fail {statuses : List Status} (h : .fail ∈ statuses) : allOf statuses = .fail := by
  rw [allOf, if_pos (List.any_eq_true.2 ⟨_, h, rfl⟩)]

theorem anyOf_of_success {statuses : List Status} (h : .success ∈ statuses) : anyOf statuses = .success := by
  rw [anyOf, if_pos (List.any_eq_true.2 ⟨_, h, rfl⟩)]

theorem eq_or_fail_of_severer (h : ∀ x ∈ xs, (f x).Severer (g x)) : xs.map f = xs.map g ∨ .fail ∈ xs.map f := by
  by_cases hfail : ∃ x ∈ xs, f x = .fail
  · obtain ⟨x, hx, hfail⟩ := hfail
    exact .inr (hfail ▸ List.mem_map_of_mem hx)
  · exact .inl (List.map_congr_left fun x hx => (h x hx).resolve_left fun hf => hfail ⟨x, hx, hf⟩)

theorem allOf_severer (h : ∀ x ∈ xs, (f x).Severer (g x)) : (allOf (xs.map f)).Severer (allOf (xs.map g)) := by
  rcases eq_or_fail_of_severer h with heq | hfail
  · exact .inr (congrArg allOf heq)
  · exact .inl (allOf_of_fail hfail)

theorem anyOf_severer (h : ∀ x ∈ xs, (f x).Severer (g x)) : (anyOf (xs.map f)).Severer (anyOf (xs.map g)) := by
  rcases eq_or_fail_of_severer h with heq | hfail
  · exact .inr (congrArg anyOf heq)
  by_cases hsuccess : ∃ x ∈ xs, f x = .success
  -- what succeeds has not become a failure, so it succeeds on both sides
  · obtain ⟨x, hx, hf⟩ := hsuccess
    have hg : g x = .success := ((h x hx).resolve_left (by rw [hf]; exact nofun)).symm.trans hf
    have hfs : .success ∈ xs.map f := hf ▸ List.mem_map_of_mem hx
    have hgs : .success ∈ xs.map g := hg ▸ List.mem_map_of_mem hx
    exact .inr ((anyOf_of_success hfs).trans (anyOf_of_success hgs).symm)
  · refine .inl ?_
    have hnone : (xs.map f).any isSuccess = false := List.any_eq_false.2 fun s hs => by
      obtain ⟨x, hx, rfl⟩ := List.mem_map.1 hs
      exact fun hsuc => hsuccess ⟨x, hx, eq_of_beq hsuc⟩
    have hsome : (xs.map f).any isFail = true := List.any_eq_true.2 ⟨_, hfail, rfl⟩
    rw [anyOf, hnone, hsome, List.isEmpty_eq_false_iff.2 (List.ne_nil_of_mem hfail)]
    rfl

end Status

theorem Quantifier.fold_severer {α : Type} {f g : α → Status} {xs : List α} (q : Quantifier) (allEmpty : Status)
    (h : ∀ x ∈ xs, (f x).Severer (g x)) : (q.fold allEmpty (xs.map f)).Severer (q.fold allEmpty (xs.map g)) := by
  cases xs with
  | nil => exact .inr rfl
  | cons x xs =>
    cases q with
    | all => exact Status.allOf_severer h
    | any => exact Status.anyOf_severer h

theorem Leaf.member_of_operand?_compare {scope m : Member} {p? : Option Property} {op : Operator} {operand : Operand}
    (h : (compare scope p? op operand).operand? = some m) : operand = .member m := by
  cases operand with
  | member other => cases h; rfl
  | sample => cases h
  | value v =>
    unfold compare at h
    cases hroot : scope.isRoot <;> rw [hroot] at h <;> cases h

/-- The plan for a member fails behind the first chain or is answered as behind the second, from
wherever the member may be seen. -/
def Plan.Hardened (c c' : Chain) (body : Member → Plan) : Prop :=
  ∀ cur scope, cur.Above scope.path → ((body scope).verdict c cur).Severer ((body scope).verdict c' cur)

namespace Plan
variable {c c' : Chain}

theorem Hardened.forEach [c.HandlerFree] [c'.HandlerFree] {e : Expansion} {body : Member → Plan} (h : c.Guards c')
    (hbody : Hardened c c' body) :
    Hardened c c' (forEach · e body) := by
  intro cur scope hcur
  obtain ⟨hentry, hentry'⟩ := h.enters?_eq cur (.elements e.quantifier scope)
  rw [verdict_forEach, verdict_forEach, hentry, hentry']
  show (elementsVerdict c scope e body cur).Severer (elementsVerdict c' scope e body cur)
  rw [elementsVerdict, elementsVerdict, ← cur.found?_congr h.registry h.depth]
  cases hf : cur.found? c.terms scope.path e with
  | none => exact .inr rfl
  | some found =>
    simp only
    rw [Chain.verdict_tally (fun m s => (h.passes_eq m s).1) fun cur scope => (body scope).blind_run c cur,
      Chain.verdict_tally (fun m s => (h.passes_eq m s).2) fun cur scope => (body scope).blind_run c' cur,
      ← h.allEmpty]
    refine Quantifier.fold_severer _ _ fun x hx => hbody _ _ (hcur.element ?_ _)
    have hx : x ∈ (cur.found? c.terms scope.path e).getD [] := by rw [hf]; exact hx
    exact (Cursor.literal_of_mem_found? hx).concrete

theorem Hardened.along [c.HandlerFree] [c'.HandlerFree] {body : Member → Plan} (h : c.Guards c')
    (hbody : Hardened c c' body) (path : Path) :
    Hardened c c' (along body path) := by
  refine along_ind hbody ?_ ?_
  · intro e he body ih
    exact ih.forEach h
  · intro k hk body ih cur scope hcur
    exact ih cur (scope.extend [k]) (hcur.append hk)

end Plan

namespace Rule
variable {c c' : Chain}

theorem hardened_ask (h : c.Guards c') {operand : Operand} (ho : operand.isConcrete = true) (p? : Option Property)
    (op : Operator) : Plan.Hardened c c' fun scope => .ask (.compare scope p? op operand) := by
  intro cur scope hcur
  rw [Plan.verdict, Plan.verdict, Plan.run, Plan.run]
  cases hl : c.lacks cur (.compare scope p? op operand) with
  | false => exact .inr (congrArg Pass.verdict (h.ask_eq hl))
  | true =>
    refine .inl (h.verdict_ask_of_lacks (fun m hm => ?_) hl)
    rw [Leaf.member_of_operand?_compare hm] at ho
    exact of_decide_eq_true ho

mutual

/-- A rule that does not fan out under a negation fails behind the first chain or is answered as
behind the second. -/
theorem hardened_plan [c.HandlerFree] [c'.HandlerFree] (h : c.Guards c') :
    ∀ {r : Rule}, r.everywhere negatesHere = true → r.everywhere hasConcreteOperand = true →
      Plan.Hardened c c' r.plan
  | condition op operand, _, ho => hardened_ask h ho none op
  | property p op operand, _, ho => hardened_ask h ho (some p) op
  | presence _, _, _ => fun cur scope _ => .inr (congrArg Pass.verdict (h.ask_eq rfl))
  | bind m body, hn, ho => by
    rw [everywhere, Bool.and_eq_true] at hn ho
    exact fun cur scope hcur => (hardened_plan h (r := body) hn.2 ho.2).along h m.path cur (scope.adoptNames m) hcur
  | elements e rules, hn, ho => by
    rw [everywhere, Bool.and_eq_true] at hn ho
    refine Plan.Hardened.forEach h fun cur scope hcur => ?_
    rw [Plan.verdict_connect, Plan.verdict_connect]
    exact Status.allOf_severer fun p hp => hardened_plans h hn.2 ho.2 hcur p hp
  | explain message body, hn, ho => by
    rw [everywhere, Bool.and_eq_true] at hn ho
    intro cur scope hcur
    obtain ⟨hentry, hentry'⟩ := h.enters?_eq cur (.explained scope message)
    rw [plan, Plan.verdict_within, Plan.verdict_within, hentry, hentry']
    exact hardened_plan h (r := body) hn.2 ho.2 cur scope hcur
  | group k rules, hn, ho => by
    rw [everywhere, Bool.and_eq_true] at hn ho
    intro cur scope hcur
    obtain ⟨hentry, hentry'⟩ := h.enters?_eq cur (.group k scope rules)
    have hrules := hardened_plans h hn.2 ho.2 hcur
    cases k with
    | and =>
      rw [plan, Plan.verdict_within, Plan.verdict_within, hentry, hentry']
      show ((Plan.connect .and _).verdict c cur).Severer ((Plan.connect .and _).verdict c' cur)
      rw [Plan.verdict_connect, Plan.verdict_connect]
      exact Status.allOf_severer hrules
    | or =>
      rw [plan, Plan.verdict_within, Plan.verdict_within, hentry, hentry']
      show ((Plan.connect .or _).verdict c cur).Severer ((Plan.connect .or _).verdict c' cur)
      rw [Plan.verdict_connect, Plan.verdict_connect]
      exact Status.anyOf_severer hrules
    | not =>
      -- a failure in place of another answer would be turned into a success, so the answers are
      -- compared only where nothing is missing
      cases hb : c.lacksBefore cur (.group .not scope rules) with
      | false => exact .inr (congrArg Pass.verdict (h.run_not_eq hcur hn.1 ho.2 hb))
      | true =>
        rw [plan, Plan.verdict_within, hentry, hb]
        exact .inl rfl

theorem hardened_plans [c.HandlerFree] [c'.HandlerFree] (h : c.Guards c') :
    ∀ {rs : List Rule}, everywhereIn negatesHere rs = true → everywhereIn hasConcreteOperand rs = true →
      ∀ {cur : Cursor} {scope : Member}, cur.Above scope.path →
        ∀ p ∈ plans rs scope, (p.verdict c cur).Severer (p.verdict c' cur)
  | [], _, _, _, _, _, _, hp => absurd hp List.not_mem_nil
  | r :: rs, hn, ho, cur, scope, hcur, p, hp => by
    rw [everywhereIn, Bool.and_eq_true] at hn ho
    rcases List.mem_cons.1 hp with rfl | hp
    · exact hardened_plan h hn.1 ho.1 cur scope hcur
    · exact hardened_plans h hn.2 ho.2 hcur p hp

end

end Rule

namespace Validator

theorem guards_chain (v : Validator) :
    Chain.Guards ((v.under .abort).chain .everything) ((v.under .safe).chain .everything) :=
  ⟨layers_chain .., layers_chain .., rfl, rfl, rfl⟩

/-- Where no negation has an expansion below it and operands are single members, a rule fails under
abort or is answered as under the safe policy. Where the pass under abort never misses a member, a
property or an operand, nor any of what a negation mentions, the two policies give the same outcome. -/
theorem abort_adds_failures (v : Validator) (o : Object) :
    (v.rule.everywhere Rule.negatesHere = true → v.rule.everywhere Rule.hasConcreteOperand = true →
      ((v.under .abort).validate o).status = .fail ∨
        ((v.under .abort).validate o).status = ((v.under .safe).validate o).status) ∧
    ((∀ q cur, (v.rule.plan .root).Reaches ((v.under .abort).chain .everything) (.start o) q cur →
        q.lacks ((v.under .abort).chain .everything) cur = false) →
      (v.under .abort).validate o = (v.under .safe).validate o) := by
  have h := v.guards_chain
  refine ⟨fun hnegates hoperands => ?_, fun hlacks => ?_⟩
  · have hroot : (Cursor.start o).Above Member.root.path :=
      ⟨fun k hk => absurd hk List.not_mem_nil, Nat.le_refl 0, rfl⟩
    rw [validate, validate, status_run, status_run]
    exact Rule.hardened_plan h hnegates hoperands (.start o) .root hroot
  · rw [validate, validate]
    exact run_congr rfl (h.run_eq hlacks)

/-- A name that must not be another: nothing is missing where both are there; where one is missing
only abort fails. -/
theorem abort_adds_failures_names :
    let other : Operand := .member { path := [.name "alias"] }
    let same : Rule := .bind { path := [.name "name"] } (.condition (.compare .eq) other)
    let v : Validator := { rule := .not same }
    let o : Object := .json (.object [("alias", .str "b"), ("name", .str "a")])
    let o' : Object := .json (.object [("name", .str "a")])
    v.rule.everywhere Rule.negatesHere = true ∧ v.rule.everywhere Rule.hasConcreteOperand = true ∧
      (∀ q cur, (v.rule.plan .root).Reaches ((v.under .abort).chain .everything) (.start o) q cur →
        q.lacks ((v.under .abort).chain .everything) cur = false) ∧
      (v.under .abort).validate o = (v.under .safe).validate o ∧
      (((v.under .abort).validate o').status = .fail ∨
        ((v.under .abort).validate o').status = ((v.under .safe).validate o').status) ∧
      ((v.under .safe).validate o').status = .ignore := by
  intro other same v o o'
  have hnegates : v.rule.everywhere Rule.negatesHere = true := by decide
  have hoperands : v.rule.everywhere Rule.hasConcreteOperand = true := by decide
  have hlacks : ∀ q cur, (v.rule.plan .root).Reaches ((v.under .abort).chain .everything) (.start o) q cur →
      q.lacks ((v.under .abort).chain .everything) cur = false := fun q cur hq => by
    have hlocal : (v.rule.plan .root).Everywhere (·.isDemand = false) :=
      Rule.everywhere_plan Rule.shapes_staysHere .root (by decide)
    cases v.guards_chain.cursor_of_reaches hlocal hq
    have hall : (v.rule.plan .root).Everywhere (·.lacks ((v.under .abort).chain .everything) (.start o) = false) :=
      .within (by decide) (.connect rfl (List.forall_mem_singleton.2 (.ask (by decide))))
    exact (hall.of_reaches hq).self
  exact ⟨hnegates, hoperands, hlacks, (abort_adds_failures v o).2 hlacks,
    (abort_adds_failures v o').1 hnegates hoperands, by decide⟩

end Validator

end Conform
