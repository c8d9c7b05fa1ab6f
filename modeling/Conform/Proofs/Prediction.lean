import Conform.Proofs.Families
import Conform.Proofs.Independence
import Conform.Proofs.Strictness

/-!
# What checking a candidate foretells

A rule that is a conjunction of questions about single places is violated exactly if one of the
questions is answered so (`Rule.verdict_conjunct`). A question about a place inside the candidate is
asked of the candidate, which is what the written document has there, and any other place is the same
before and after the write (`Json.at?_put_of_clear`). So a check fails exactly if the written document
violates the rule, provided that the document before did not (`Validator.prevalidate_predicts`).
-/

namespace Conform

/-! ### Places beside a written one -/

namespace Path
variable {m p : Path}

/-- The names and positions before the first property. -/
def stem (p : Path) : Path :=
  p.takeWhile Key.isLiteral

theorem literal_stem (p : Path) : p.stem.Literal :=
  List.all_eq_true.1 List.all_takeWhile

theorem stem_prefix (p : Path) : p.stem <+: p :=
  List.takeWhile_prefix _

theorem stem_property (p : Path) (q? : Option Property) : stem (p ++ (q?.map Key.property).toList) = p.stem := by
  cases q? with
  | none => rw [Option.map_none, Option.toList_none, List.append_nil]
  | some q =>
    induction p with
    | nil => rfl
    | cons k p ih =>
      rw [stem] at ih ⊢
      rw [List.cons_append, List.takeWhile_cons, ih, stem, stem, List.takeWhile_cons]

/-- A place of names and positions is never reached through a property. -/
theorem Literal.prefix_stem_iff (hm : m.Literal) : m <+: p.stem ↔ m <+: p := by
  refine ⟨fun h => h.trans p.stem_prefix, fun h => ?_⟩
  obtain ⟨s, rfl⟩ := h
  rw [stem, List.takeWhile_append_of_pos hm]
  exact List.prefix_append ..

/-- What is read at the path is no container of what is at `m`: the path up to its first property
does not end before `m`. -/
def Clear (m p : Path) : Prop :=
  ¬ (p.stem <+: m ∧ p.stem ≠ m)

theorem Clear.of_property {q? : Option Property} (h : m.Clear (p ++ (q?.map Key.property).toList)) : m.Clear p := by
  rwa [Clear, stem_property] at h

theorem Literal.covers_property (hm : m.Literal) (p : Path) (q? : Option Property) :
    m.covers (p ++ (q?.map Key.property).toList) = m.covers p := by
  have hstem : m <+: p ++ (q?.map Key.property).toList ↔ m <+: p.stem := by
    rw [← hm.prefix_stem_iff, stem_property]
  rw [Bool.eq_iff_iff, covers_iff hm, covers_iff hm, hstem, hm.prefix_stem_iff]

end Path

theorem Registry.at?_null (r : Registry) {k : Key} (hk : k.isLiteral = true) (p : Path) :
    r.at? (.json .null) (k :: p) = none := by
  rw [r.at?_json_cons .null hk]
  rfl

namespace Json
variable {r : Registry} {candidate doc doc' : Json} {m p : Path}

theorem at?_put_apart (h : put candidate m doc = (doc', true)) (hp : p.Literal) (hin : ¬ m <+: p)
    (hout : ¬ p <+: m) : r.at? (.json doc') p = r.at? (.json doc) p := by
  induction m generalizing doc doc' p with
  | nil => exact absurd List.nil_prefix hin
  | cons k m ih =>
    obtain ⟨v, hv, hset⟩ := put_cons h
    cases p with
    | nil => exact absurd List.nil_prefix hout
    | cons l p =>
      obtain ⟨hl, hp⟩ := List.forall_mem_cons.1 hp
      rw [r.at?_json_cons doc hl, r.at?_json_cons doc' hl]
      by_cases hlk : l = k
      · subst hlk
        have hrest := ih hv hp (fun h => hin (List.cons_prefix_cons.2 ⟨rfl, h⟩))
          fun h => hout (List.cons_prefix_cons.2 ⟨rfl, h⟩)
        rw [hset.child?_self, Option.bind_some, hrest]
        cases hchild : doc.child? l with
        | some c => rfl
        | none =>
          -- where a key has been added, nothing has been before
          cases p with
          | nil => exact absurd (List.cons_prefix_cons.2 ⟨rfl, List.nil_prefix⟩) hout
          | cons l' p => exact r.at?_null (hp l' (List.mem_cons_self ..)) p
      · rw [hset.child?_of_ne hlk]

/-- What a path that stays clear of the written place leads to in the written document. -/
theorem at?_put_of_clear (h : put candidate m doc = (doc', true)) (hclear : m.Clear p) :
    r.at? (.json doc') p =
      if m.covers p then r.at? (.json candidate) (p.drop m.length) else r.at? (.json doc) p := by
  have hm := literal_of_put h
  split
  next hin =>
    obtain ⟨s, rfl⟩ := (Path.covers_iff hm).1 hin
    rw [Registry.at?_append, at?_put h, Option.bind_some, List.drop_left]
  next hin =>
    have hin : ¬ m <+: p := fun h => hin ((Path.covers_iff hm).2 h)
    have hapart : r.at? (.json doc') p.stem = r.at? (.json doc) p.stem := by
      refine at?_put_apart h p.literal_stem (fun h => hin (hm.prefix_stem_iff.1 h)) fun hout => hclear ⟨hout, ?_⟩
      rintro rfl
      exact hin p.stem_prefix
    have hsplit : p.stem ++ p.dropWhile Key.isLiteral = p := List.takeWhile_append_dropWhile
    rw [← hsplit, Registry.at?_append, Registry.at?_append, hapart]

end Json

/-! ### Leaves -/

/-- Two cursors find the same wherever a leaf reads. -/
structure Cursor.Finds (r : Registry) (cur cur' : Cursor) (l : Leaf) : Prop where
  member : cur.sees? r l.member.path = cur'.sees? r l.member.path
  operand : ∀ other, l.operand? = some other →
    cur.fromOperands.sees? r other.path = cur'.fromOperands.sees? r other.path
  owner : ∀ other, l.operand? = some other →
    cur.fromOperands.sees? r other.splitProperty.1.path = cur'.fromOperands.sees? r other.splitProperty.1.path

namespace Cursor.Finds
variable {r : Registry} {cur cur' : Cursor} {l : Leaf}

theorem has (h : Finds r cur cur' l) (hl : l.member.path.Concrete) (p? : Option Property) :
    cur.has r l.member p? = cur'.has r l.member p? := by
  cases p? with
  | none => rw [has_none_concrete _ _ hl, has_none_concrete _ _ hl, h.member]
  | some q => rw [has_some, has_some, h.member]

theorem answer (h : Finds r cur cur' l) (hl : l.member.path.Concrete) : cur.answer r l = cur'.answer r l := by
  cases l with
  | presence m p? expected =>
    rw [Cursor.answer, Cursor.answer]
    exact congrArg (fun found => Status.ofBool (found == expected)) (h.has hl p?)
  | check subject k =>
    have hleft : cur.left? r k = cur'.left? r k := by
      rw [left?_eq, left?_eq]
      exact congrArg (·.bind (r.scalarOf? · k.property?)) h.member
    have hright : cur.right? r k = cur'.right? r k := by
      obtain ⟨m, p?, op, operand⟩ := k
      cases operand with
      | value | sample => rfl
      | member other => rw [right?_member _ _ rfl, right?_member _ _ rfl, h.owner other rfl]
    rw [Cursor.answer, Cursor.answer, compare, compare, hleft, hright]

theorem lacks {c : Chain} (h : Finds c.registry cur cur' l) (hl : l.member.path.Concrete) :
    c.lacks cur l = c.lacks cur' l := by
  cases l with
  | presence => rfl
  | check subject k =>
    have hhas : cur.has c.registry k.member k.property? = cur'.has c.registry k.member k.property? := h.has hl k.property?
    obtain ⟨m, p?, op, operand⟩ := k
    rw [Chain.lacks, Chain.lacks, hhas]
    cases operand with
    | value | sample => rfl
    | member other =>
      have hother : cur.hasOperand c.registry other = cur'.hasOperand c.registry other := by
        rw [hasOperand_eq, hasOperand_eq, h.operand other rfl]
      exact congrArg (fun found => !cur'.has c.registry m p? || !found) hother

end Cursor.Finds

/-- Behind the filter a leaf fails for what it lacks, if that is a failure, or else is answered. -/
theorem Validator.verdict_behind (v : Validator) (c : Chain) (cur : Cursor) {l : Leaf}
    (ho : ∀ other, l.operand? = some other → other.path.Concrete) :
    Pass.verdict (c.askThrough v.behind cur l) =
      if v.terms.settings.existence = .abort ∧ c.lacks cur l = true then .fail else cur.answer c.registry l := by
  by_cases hlacks : v.terms.settings.existence = .abort ∧ c.lacks cur l = true
  · obtain ⟨q, hq, hfail⟩ := Chain.guarded_of_lacks ho hlacks.2
    rw [if_pos hlacks, verdict_behind_of_guarded hlacks.1 hq, hfail]
  · rw [if_neg hlacks]
    exact verdict_behind_of_not_lacks fun hpolicy => Bool.eq_false_iff.2 fun h => hlacks ⟨hpolicy, h⟩

/-- Neither the member or property of a leaf nor its operand contains what is at `m`. -/
structure Leaf.Clear (m : Path) (l : Leaf) : Prop where
  member : m.Clear l.path
  operand : ∀ other, l.operand? = some other → m.Clear other.path

theorem Leaf.clear_of_path {m : Path} {l : Leaf} (h : m.Clear l.path) (hnone : l.operand? = none) : l.Clear m where
  member := h
  operand other hother := by rw [hnone] at hother; cases hother

/-! ### Candidates -/

theorem Cursor.sees?_start (r : Registry) (o : Object) (p : Path) : (start o).sees? r p = r.at? o p :=
  sees?_of_le r (Nat.zero_le _)

theorem Cursor.sees?_operands_start (r : Registry) (o : Object) (p : Path) :
    (start o).fromOperands.sees? r p = r.at? o p :=
  sees?_of_le r (Nat.zero_le _)

namespace Candidate
variable {cand : Candidate} {r : Registry} {cur : Cursor} {p : Path}

theorem sees?_enter_start (o : Object) (h : cand.path <+: p) :
    (cand.enter (.start o)).sees? r p = r.at? cand.object (p.drop cand.path.length) := by
  have hahead : cand.isAhead (.start o) = true := by
    cases hpath : cand.path <;> simp [isAhead, Cursor.start, hpath]
  rw [enter, if_pos hahead]
  exact Cursor.sees?_of_le r h.length_le

theorem sees?_operands_moved (left : Bool) (h : cand.path <+: p) :
    (cand.follow cur left true).fromOperands.sees? r p = r.at? cand.object (p.drop cand.path.length) :=
  Cursor.sees?_of_le r h.length_le

/-- Where a leaf stays clear of the candidate's place, what it reads before the write, from the
candidate or beside it, is what it reads after it. -/
theorem finds_follow {x doc doc' : Json} {l : Leaf} (hput : Json.put x cand.path doc = (doc', true))
    (hobject : cand.object = .json x) (hl : l.Clear cand.path) :
    Cursor.Finds r (cand.follow (.start (.json doc)) (cand.holds l.member.path)
      ((l.operand?.map fun m => cand.holds m.path).getD false)) (.start (.json doc')) l := by
  have hcand := Json.literal_of_put hput
  have hread : ∀ (left : Bool) (p : Path), cand.path.Clear p →
      (cand.follow (.start (.json doc)) left (cand.holds p)).fromOperands.sees? r p =
        (Cursor.start (.json doc')).fromOperands.sees? r p := by
    intro left p hclear
    rw [Cursor.sees?_operands_start, Json.at?_put_of_clear hput hclear, holds]
    cases hin : cand.path.covers p with
    | true => rw [sees?_operands_moved left ((Path.covers_iff hcand).1 hin), hobject, if_pos rfl]
    | false => exact sees?_operands_follow cand rfl left r p
  refine ⟨?_, fun other hother => ?_, fun other hother => ?_⟩
  · have hclear : cand.path.Clear l.member.path := hl.member.of_property
    rw [sees?_follow, Cursor.sees?_start, Json.at?_put_of_clear hput hclear, holds]
    cases hin : cand.path.covers l.member.path with
    | true => rw [if_pos rfl, if_pos rfl, sees?_enter_start _ ((Path.covers_iff hcand).1 hin), hobject]
    | false => rw [if_neg Bool.false_ne_true, if_neg Bool.false_ne_true, Cursor.sees?_start]
  · rw [hother, Option.map_some, Option.getD_some]
    exact hread _ _ (hl.operand other hother)
  · have hjoin := other.splitProperty_join
    have hclear : cand.path.Clear other.splitProperty.1.path := (hjoin ▸ hl.operand other hother).of_property
    have hholds : cand.holds other.path = cand.holds other.splitProperty.1.path := by
      rw [holds, holds, ← hjoin]
      exact hcand.covers_property _ _
    rw [hother, Option.map_some, Option.getD_some, hholds]
    exact hread _ _ hclear

end Candidate

/-! ### Conjunctions -/

theorem Status.allOf_eq_fail_iff {statuses : List Status} : allOf statuses = .fail ↔ .fail ∈ statuses :=
  ⟨mem_of_allOf_fail, allOf_of_fail⟩

/-- The branch is no negation and no demand on elements. -/
def Branch.isPlain : Branch → Bool
  | group .not .. | elements .. => false
  | group .. | explained .. => true

namespace Rule

/-- A conjunction, or a question about a single place. -/
def isConjunct : Rule → Bool
  | condition _ operand | property _ _ operand => operand.isConcrete
  | presence _ | explain .. => true
  | bind m _ => decide m.path.Concrete
  | group k _ => k == .and
  | elements .. => false

mutual

/-- The questions of a rule about single places. -/
def leaves : Rule → Member → List Leaf
  | condition op operand, scope => [.compare scope none op operand]
  | property p op operand, scope => [.compare scope (some p) op operand]
  | presence expected, scope => [.presence scope.splitProperty.1 scope.splitProperty.2 expected]
  | bind m body, scope => leaves body ((scope.adoptNames m).extend m.path)
  | group _ rules, scope => leavesOf rules scope
  | elements .., _ => []
  | explain _ body, scope => leaves body scope

def leavesOf : List Rule → Member → List Leaf
  | [], _ => []
  | r :: rs, scope => leaves r scope ++ leavesOf rs scope

end

end Rule

namespace Leaf

/-- Neither the member of a leaf nor its operand fans out. -/
structure Concrete (l : Leaf) : Prop where
  member : l.member.path.Concrete
  operand : ∀ other, l.operand? = some other → other.path.Concrete

theorem operand?_compare (scope : Member) (p? : Option Property) (op : Operator) (operand : Operand) :
    (compare scope p? op operand).operand? = match operand with
      | .member m => some m
      | .value _ | .sample _ => none := by
  cases operand with
  | value =>
    rw [compare]
    split <;> rfl
  | member | sample => rfl

theorem concrete_compare {scope : Member} (hscope : scope.path.Concrete) (p? : Option Property) (op : Operator)
    {operand : Operand} (ho : operand.isConcrete = true) : (compare scope p? op operand).Concrete where
  member := by rwa [path_member_compare]
  operand := by
    intro other hother
    rw [operand?_compare] at hother
    cases operand with
    | value | sample => cases hother
    | member m =>
      cases hother
      exact of_decide_eq_true ho

end Leaf

namespace Rule
variable {c : Chain} {cur : Cursor}

mutual

theorem concrete_leaves : ∀ (r : Rule) (scope : Member), r.everywhere isConjunct = true → scope.path.Concrete →
    ∀ l ∈ r.leaves scope, l.Concrete
  | condition op operand, scope, hr, hscope => List.forall_mem_singleton.2 (Leaf.concrete_compare hscope none op hr)
  | property p op operand, scope, hr, hscope =>
    List.forall_mem_singleton.2 (Leaf.concrete_compare hscope (some p) op hr)
  | presence expected, scope, _, hscope => by
    have howner : scope.splitProperty.1.path <+: scope.path := ⟨_, scope.splitProperty_join⟩
    exact List.forall_mem_singleton.2 ⟨fun k hk => hscope k (howner.subset hk), nofun⟩
  | bind m body, scope, hr, hscope => by
    rw [everywhere, Bool.and_eq_true] at hr
    exact concrete_leaves body _ hr.2 (hscope.append (of_decide_eq_true hr.1))
  | group _ rules, scope, hr, hscope => by
    rw [everywhere, Bool.and_eq_true] at hr
    exact concrete_leavesOf rules scope hr.2 hscope
  | elements .., _, _, _ => fun _ hl => absurd hl List.not_mem_nil
  | explain _ body, scope, hr, hscope => by
    rw [everywhere, Bool.and_eq_true] at hr
    exact concrete_leaves body scope hr.2 hscope

theorem concrete_leavesOf : ∀ (rs : List Rule) (scope : Member), everywhereIn isConjunct rs = true →
    scope.path.Concrete → ∀ l ∈ leavesOf rs scope, l.Concrete
  | [], _, _, _ => fun _ hl => absurd hl List.not_mem_nil
  | r :: rs, scope, hrs, hscope => by
    rw [everywhereIn, Bool.and_eq_true] at hrs
    exact List.forall_mem_append.2 ⟨concrete_leaves r scope hrs.1 hscope, concrete_leavesOf rs scope hrs.2 hscope⟩

end

mutual

theorem verdict_conjunct [c.HandlerFree] (hc : ∀ b : Branch, b.isPlain = true → c.enters? cur b = some cur) :
    ∀ (r : Rule) (scope : Member), r.everywhere isConjunct = true →
      ((r.plan scope).verdict c cur = .fail ↔ ∃ l ∈ r.leaves scope, Pass.verdict (c.ask cur l) = .fail)
  | condition op operand, scope, _ | property p op operand, scope, _ | presence expected, scope, _ => by
    simp only [plan, leaves, List.mem_singleton, exists_eq_left]
    rfl
  | bind m body, scope, hr => by
    rw [everywhere, Bool.and_eq_true] at hr
    rw [plan, Plan.along_concrete (of_decide_eq_true hr.1), leaves]
    exact verdict_conjunct hc body _ hr.2
  | group k rules, scope, hr => by
    rw [everywhere, Bool.and_eq_true] at hr
    cases eq_of_beq hr.1
    rw [plan, Plan.verdict_within, hc _ rfl, Option.map_some, Option.getD_some, Plan.verdict_connect, leaves,
      ← verdict_conjuncts hc rules scope hr.2]
    exact Status.allOf_eq_fail_iff.trans List.mem_map
  | elements .., _, hr => by
    rw [everywhere, Bool.and_eq_true] at hr
    cases hr.1
  | explain message body, scope, hr => by
    rw [everywhere, Bool.and_eq_true] at hr
    rw [plan, Plan.verdict_within, hc _ rfl, Option.map_some, Option.getD_some, leaves]
    exact verdict_conjunct hc body scope hr.2

theorem verdict_conjuncts [c.HandlerFree] (hc : ∀ b : Branch, b.isPlain = true → c.enters? cur b = some cur) :
    ∀ (rs : List Rule) (scope : Member), everywhereIn isConjunct rs = true →
      ((∃ p ∈ plans rs scope, p.verdict c cur = .fail) ↔
        ∃ l ∈ leavesOf rs scope, Pass.verdict (c.ask cur l) = .fail)
  | [], _, _ => by simp [plans, leavesOf]
  | r :: rs, scope, hrs => by
    rw [everywhereIn, Bool.and_eq_true] at hrs
    simp only [plans, leavesOf, List.exists_mem_cons_iff, List.mem_append, or_and_right, exists_or]
    exact or_congr (verdict_conjunct hc r scope hrs.1) (verdict_conjuncts hc rs scope hrs.2)

end

end Rule

/-! ### Candidates for conjunctions -/

namespace Validator
variable {v : Validator} {m : Member} {x doc doc' : Json} {l : Leaf}

theorem enters?_plain (v : Validator) (f : Filter) (cur : Cursor) (b : Branch) (hb : b.isPlain = true) :
    (v.chain f).enters? cur b = some cur := by
  rw [Chain.enters?, layers_chain]
  cases v.terms.settings.existence <;> cases f <;>
    first
    | rfl
    | cases b with
      | elements => cases hb
      | explained => rfl
      | group k scope rules => cases k <;> first | rfl | cases hb

theorem status_conjunct (hrule : v.rule.everywhere Rule.isConjunct = true) (o : Object) (f : Filter) :
    (v.run o f).status = .fail ↔ ∃ l ∈ v.rule.leaves .root, Pass.verdict ((v.chain f).ask (.start o) l) = .fail := by
  rw [status_run]
  exact Rule.verdict_conjunct (v.enters?_plain f (.start o)) v.rule .root hrule

theorem verdict_behind_congr {c : Chain} {cur cur' : Cursor} (h : Cursor.Finds c.registry cur cur' l) (hl : l.Concrete) :
    Pass.verdict (c.askThrough v.behind cur l) = Pass.verdict (c.askThrough v.behind cur' l) := by
  rw [verdict_behind v c cur hl.operand, verdict_behind v c cur' hl.operand, h.lacks hl.member, h.answer hl.member]

/-- A leaf that does not fail before the write fails when the candidate is checked exactly if it fails
after the write. -/
theorem fail_ask_candidate_iff (hput : Json.put x m.path doc = (doc', true)) (hl : l.Concrete) (hclear : l.Clear m.path)
    (hbefore : Pass.verdict ((v.chain .everything).ask (.start (.json doc)) l) ≠ .fail) :
    Pass.verdict ((v.chain (.candidate m (.json x) false)).ask (.start (.json doc)) l) = .fail ↔
      Pass.verdict ((v.chain .everything).ask (.start (.json doc')) l) = .fail := by
  let cand : Candidate := { path := m.path, object := .json x }
  have hfinds : Cursor.Finds v.terms.registry
      (cand.follow (.start (.json doc)) (cand.holds l.member.path) ((l.operand?.map fun m => cand.holds m.path).getD false))
      (.start (.json doc')) l := Candidate.finds_follow hput rfl hclear
  have hsame := verdict_behind_congr (v := v) (c := v.chain .everything) hfinds hl
  have hterms : (v.chain (.candidate m (.json x) false)).terms = (v.chain .everything).terms := rfl
  rw [ask_everything] at hbefore ⊢
  rw [Chain.ask, layers_chain, Filter.layers, List.singleton_append, Chain.askThrough_candidate,
    Candidate.redirect?_eq]
  split
  next =>
    show Pass.verdict ((v.chain (.candidate m (.json x) false)).askThrough v.behind _ l) = _ ↔ _
    rw [Chain.askThrough_congr hterms]
    exact ⟨hsame.symm.trans, hsame.trans⟩
  next hout =>
    -- the leaf is left out of the check, and reads the same before and after the write
    rw [Bool.not_eq_true, Bool.or_eq_false_iff] at hout
    rw [hout.1, hout.2] at hsame
    exact ⟨fun h => Status.noConfusion h, fun h => absurd (hsame.trans h) hbefore⟩

/-- Of a conjunction of questions about single places, none of which contains the written one, the
check of a candidate fails exactly if the written document violates it, unless the document did so
before. -/
theorem prevalidate_predicts (hrule : v.rule.everywhere Rule.isConjunct = true)
    (hput : Json.put x m.path doc = (doc', true)) (hclear : ∀ l ∈ v.rule.leaves .root, l.Clear m.path)
    (hbefore : (v.validate (.json doc)).status ≠ .fail) :
    (v.prevalidate (.json doc) m (.json x)).status = .fail ↔ (v.validate (.json doc')).status = .fail := by
  have hleaves : ∀ l ∈ v.rule.leaves .root,
      Pass.verdict ((v.chain .everything).ask (.start (.json doc)) l) ≠ .fail := by
    intro l hl hfail
    exact hbefore ((status_conjunct hrule (.json doc) .everything).2 ⟨l, hl, hfail⟩)
  rw [prevalidate, validate, status_conjunct hrule, status_conjunct hrule]
  refine exists_congr fun l => and_congr_right fun hl => ?_
  have hconcrete : l.Concrete := Rule.concrete_leaves v.rule .root hrule (fun _ hk => absurd hk List.not_mem_nil) l hl
  exact fail_ask_candidate_iff hput hconcrete (hclear l hl) (hleaves l hl)

/-- The limit that a price must exceed is written where there is no order yet. -/
theorem prevalidate_predicts_limit :
    let limit : Operand := .member { path := [.name "order", .name "limit"] }
    let r : Rule := .group .and
      [.bind { path := [.name "price"] } (.condition (.compare .gt) limit),
       .bind { path := [.name "tags"] } (.property .size (.compare .lt) (.value (.int 3))),
       .bind { path := [.name "price"] } (.presence true)]
    let v : Validator := { rule := r, terms := { settings := { existence := .safe } } }
    let doc : Json := .object [("price", .int 5), ("tags", .list [.str "a"])]
    let doc' : Json := .object [("order", .object [("limit", .int 7)]), ("price", .int 5), ("tags", .list [.str "a"])]
    let m : Member := { path := [.name "order", .name "limit"] }
    (v.rule.everywhere Rule.isConjunct = true ∧ Json.put (.int 7) m.path doc = (doc', true) ∧
      (∀ l ∈ v.rule.leaves .root, l.Clear m.path) ∧ (v.validate (.json doc)).status ≠ .fail) ∧
    ((v.prevalidate (.json doc) m (.json (.int 7))).status = .fail ↔ (v.validate (.json doc')).status = .fail) ∧
    (v.validate (.json doc')).status = .fail := by
  intro limit r v doc doc' m
  have hrule : v.rule.everywhere Rule.isConjunct = true := by decide
  have hput : Json.put (.int 7) m.path doc = (doc', true) := by rfl
  have hprice : m.path.Clear [.name "price"] := by
    simp [Path.Clear, Path.stem, m, List.takeWhile_cons, Key.isLiteral]
  have htags : m.path.Clear [.name "tags", .property .size] := by
    simp [Path.Clear, Path.stem, m, List.takeWhile_cons, Key.isLiteral]
  have hlimit : m.path.Clear m.path := fun h => h.2 rfl
  have hclear : ∀ l ∈ v.rule.leaves .root, l.Clear m.path := by
    refine List.forall_mem_cons.2 ⟨⟨hprice, ?_⟩, List.forall_mem_cons.2 ⟨Leaf.clear_of_path htags rfl,
      List.forall_mem_singleton.2 (Leaf.clear_of_path hprice rfl)⟩⟩
    rintro other ⟨⟩
    exact hlimit
  have hbefore : (v.validate (.json doc)).status ≠ .fail := by decide
  exact ⟨⟨hrule, hput, hclear, hbefore⟩, prevalidate_predicts hrule hput hclear hbefore, by decide⟩

end Validator

end Conform
