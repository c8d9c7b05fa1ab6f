import Conform.Proofs.Reach
import Conform.Validator

/-!
# Looking for members first

Under the safe policy a guard looks for the members of a leaf before the leaf is asked; under the
optimistic one nothing does. The guard passes over just those leaves that would be ignored anyway,
and an ignored leaf leaves no trace in a report (`Reporter.leaf_ignore`), so the two policies
cannot be told apart (`Validator.safe_eq_optimistic`).
-/

namespace Conform

/-! ### Leaves that do not apply -/

@[simp] theorem Reporter.leaf_ignore (r : Reporter) (l : Leaf) : r.leaf .ignore l = r := by
  have hcounts : r.counts .ignore = false := by simp [counts, Status.isFail, Status.isSuccess]
  have hreport : r.reportable .ignore = false := by simp [reportable, Status.isFail, Status.isIgnore]
  simp [leaf, hcounts, hreport]

namespace Cursor
variable {r : Registry} {cur : Cursor} {k : Check}

theorem compare_of_left? (h : cur.left? r k = none) : cur.compare r k = .ignore := by
  rw [compare, h]

theorem compare_of_right? (h : cur.right? r k = none) : cur.compare r k = .ignore := by
  rw [compare, h]
  cases cur.left? r k <;> rfl

theorem left?_of_not_has (h : cur.has r k.member k.property? = false) : cur.left? r k = none := by
  rw [left?_eq]
  cases hp : k.property? with
  | none =>
    rw [hp] at h
    cases hs : cur.sees? r k.member.path with
    | none => rfl
    | some x => rw [has_none_of_sees? hs] at h; cases h
  | some q =>
    rw [hp, has_some] at h
    exact Option.not_isSome_iff_eq_none.1 (by rw [Bool.not_eq_true]; exact h)

theorem right?_of_not_hasOperand {m : Member} (hk : k.operand = .member m)
    (h : cur.hasOperand r m = false) : cur.right? r k = none := by
  have hjoin := m.splitProperty_join
  rw [hasOperand_eq, ← hjoin, Option.isSome_eq_false_iff, Option.isNone_iff_eq_none] at h
  rw [right?_member cur r hk]
  cases hp : m.splitProperty.2 with
  | none =>
    rw [hp, Option.map_none, Option.toList_none, List.append_nil] at h
    rw [h, Option.bind_none]
  | some q =>
    rw [hp, Option.map_some, Option.toList_some] at h
    cases hs : cur.fromOperands.sees? r m.splitProperty.1.path with
    | none => rfl
    | some x =>
      cases hv : r.read? x q with
      | none => exact hv
      | some v => rw [sees?_property r hs hv] at h; cases h

theorem right?_of_sample {s : Object} (hk : k.operand = .sample s)
    (h : (r.find? s k.member.path).isSome = false) : cur.right? r k = none := by
  rw [← Registry.isSome_at?, Option.isSome_eq_false_iff, Option.isNone_iff_eq_none] at h
  rw [right?_sample cur r hk, h, Option.bind_none]

end Cursor

theorem Chain.guarded_value {c : Chain} {cur : Cursor} {k : Check} {v : Value} (abort : Bool) (subject : Subject)
    (hhas : cur.has c.registry k.member k.property? = true) (hk : k.operand = .value v) :
    c.guarded abort cur (.check subject k) = some (cur, .check subject k) := by
  simp [guarded, hhas, hk]

/-- The leaves that the safe policy passes over are those that would be ignored anyway. -/
theorem Chain.guarded_safe (c : Chain) (cur : Cursor) (l : Leaf) :
    c.guarded false cur l = some (cur, l) ∨
      c.guarded false cur l = none ∧ cur.answer c.registry l = .ignore := by
  cases l with
  | presence m p? expected => exact .inl rfl
  | check subject k =>
    cases hhas : cur.has c.registry k.member k.property? with
    | false =>
      refine .inr ⟨by simp [guarded, hhas], ?_⟩
      exact Cursor.compare_of_left? (Cursor.left?_of_not_has hhas)
    | true =>
      cases hk : k.operand with
      | value v => exact .inl (c.guarded_value _ _ hhas hk)
      | member m =>
        cases hm : cur.hasOperand c.registry m with
        | true => exact .inl (by simp [guarded, hhas, hk, hm])
        | false =>
          refine .inr ⟨by simp [guarded, hhas, hk, hm], ?_⟩
          exact Cursor.compare_of_right? (Cursor.right?_of_not_hasOperand hk hm)
      | sample s =>
        cases hs : (c.registry.find? s k.member.path).isSome with
        | true => exact .inl (by simp [guarded, hhas, hk, hs])
        | false =>
          refine .inr ⟨by simp [guarded, hhas, hk, hs], ?_⟩
          exact Cursor.compare_of_right? (Cursor.right?_of_sample hk hs)

theorem Chain.guarded_cases {c : Chain} {abort : Bool} {cur : Cursor} {l : Leaf} {q : Cursor × Leaf}
    (h : c.guarded abort cur l = some q) : q.2 = l ∨ q.2.isCheck = false ∧ abort = true := by
  cases l with
  | presence => cases h; exact .inl rfl
  | check subject k =>
    simp only [Chain.guarded] at h
    split at h
    · split at h
      next habort => cases h; exact .inr ⟨rfl, habort⟩
      · cases h
    · split at h
      · cases h; exact .inl rfl
      · split at h
        · cases h; exact .inl rfl
        · split at h
          next habort => cases h; exact .inr ⟨rfl, habort⟩
          · cases h
      · split at h
        · cases h; exact .inl rfl
        · cases h

/-! ### Whole passes -/

theorem Validator.layers_chain (v : Validator) (f : Filter) :
    (v.chain f).layers =
      f.layers ++ ((Layer.ofExistence? v.terms.settings.existence).toList ++ [.reporting]) := by
  cases f <;> simp [chain, Chain.arrange, Filter.layers, Layer.role]

/-- The layers behind the filter. -/
def Validator.behind (v : Validator) : List Layer :=
  (Layer.ofExistence? v.terms.settings.existence).toList ++ [.reporting]

theorem Validator.chain_eq (v : Validator) (f : Filter) : v.chain f = ⟨f.layers ++ v.behind, v.terms⟩ := by
  rw [behind, ← layers_chain]
  rfl

theorem Validator.ask_everything (v : Validator) (cur : Cursor) (l : Leaf) :
    (v.chain .everything).ask cur l = (v.chain .everything).askThrough v.behind cur l := by
  rw [Chain.ask, chain_eq]
  rfl

theorem Validator.passes_chain (v : Validator) (f : Filter) (m : Member) (s : Status) :
    (v.chain f).passes m s = (f.layers.findSome? (Layer.passes? m s)).getD s.isSuccess := by
  have hrest : ((Layer.ofExistence? v.terms.settings.existence).toList ++ [Layer.reporting]).findSome?
      (Layer.passes? m s) = none := by
    cases v.terms.settings.existence <;> rfl
  rw [Chain.passes, layers_chain, List.findSome?_append, hrest, Option.or_none]

/-- The status of a pass is the verdict of the rule in its place. -/
theorem Validator.status_run (v : Validator) (o : Object) (f : Filter) :
    (v.run o f).status = (v.rule.plan .root).verdict (v.chain f) (.start o) := by
  show (((v.chain f).evaluate v.rule o).run _).1 = _
  rw [Chain.evaluate, Rule.eval_eq_run]
  exact (v.rule.plan .root).blind_run _ _ _

theorem Validator.run_congr {v w : Validator} {o o' : Object} {f g : Filter} (hlocale : v.locale = w.locale)
    (h : (v.rule.plan .root).run (v.chain f) (.start o) = (w.rule.plan .root).run (w.chain g) (.start o')) :
    v.run o f = w.run o' g := by
  have heval : (v.chain f).evaluate v.rule o = (w.chain g).evaluate w.rule o' := by
    rw [Chain.evaluate, Chain.evaluate, Rule.eval_eq_run, Rule.eval_eq_run]
    exact h
  rw [run, run, heval, hlocale]

namespace Chain
variable {c c' : Chain}

theorem askThrough_candidate (c : Chain) (cand : Candidate) (rest : List Layer) (cur : Cursor) (l : Leaf) :
    c.askThrough (.candidate cand :: rest) cur l =
      (cand.redirect? cur l).elim (pure .success) (c.askThrough rest · l) := by
  rw [askThrough]
  cases cand.redirect? cur l <;> rfl

/-- Guarded or not, a reported leaf is answered alike and reported alike. -/
theorem askThrough_guard (hreg : c.registry = c'.registry) (cur : Cursor) (l : Leaf) :
    c.askThrough [.guard false, .reporting] cur l = c'.askThrough [.reporting] cur l := by
  rcases c.guarded_safe cur l with h | ⟨h, hignore⟩
  · simp only [askThrough, h, hreg]
  -- the guard answers without the reporter, which would not have noted the answer
  · rw [hreg] at hignore
    simp only [askThrough, h, pure_bind, hignore, Pass.report, Reporter.leaf_ignore]
    rfl

end Chain

/-- The validator under another policy. -/
def Validator.under (v : Validator) (e : Existence) : Validator :=
  { v with terms := { v.terms with settings := { v.terms.settings with existence := e } } }

theorem Validator.run_safe (v : Validator) (o : Object) (f : Filter) :
    (v.under .safe).run o f = (v.under .optimistic).run o f := by
  have hsafe : ((v.under .safe).chain f).layers = f.layers ++ [.guard false, .reporting] := layers_chain _ f
  have hopt : ((v.under .optimistic).chain f).layers = f.layers ++ [.reporting] := layers_chain _ f
  have hregistry : ((v.under .safe).chain f).registry = ((v.under .optimistic).chain f).registry := rfl
  have hguard := Chain.askThrough_guard hregistry
  have hask : ∀ cur l, ((v.under .safe).chain f).ask cur l = ((v.under .optimistic).chain f).ask cur l := by
    intro cur l
    rw [Chain.ask, Chain.ask, hsafe, hopt]
    cases f with
    | everything => exact hguard cur l
    | member m => exact ite_congr rfl (fun _ => hguard cur l) fun _ => rfl
    | candidate m object strict =>
      simp only [Filter.layers, List.cons_append, List.nil_append, Chain.askThrough_candidate, hguard]
  have haround : ∀ cur b body,
      ((v.under .safe).chain f).around cur b body = ((v.under .optimistic).chain f).around cur b body := by
    intro cur b body
    rw [Chain.around, Chain.around, hsafe, hopt]
    cases f <;> cases b <;> rfl
  have hpasses : ∀ m s, ((v.under .safe).chain f).passes m s = ((v.under .optimistic).chain f).passes m s := by
    intro m s
    rw [passes_chain, passes_chain]
  exact run_congr rfl (Plan.run_congr hregistry rfl rfl hpasses hask haround ..)

/-- Whether members are looked for before leaves are asked cannot be seen from outside, unless a
missing one is a failure. -/
theorem Validator.safe_eq_optimistic (v : Validator) (o : Object) (m : Member) (candidate : Object) :
    (v.under .safe).validate o = (v.under .optimistic).validate o ∧
    (v.under .safe).validateMember o m = (v.under .optimistic).validateMember o m ∧
    (v.under .safe).prevalidate o m candidate = (v.under .optimistic).prevalidate o m candidate ∧
    (v.under .safe).prevalidateStrict o m candidate =
      (v.under .optimistic).prevalidateStrict o m candidate :=
  ⟨v.run_safe o _, v.run_safe o _, v.run_safe o _, v.run_safe o _⟩

end Conform
