import Conform.Proofs.Verdicts

/-!
# What a pass comes to

`Plan.Reaches` tells which parts of a plan a pass comes to and from where: a connective is left as
soon as it is decided, a demand as soon as an element ends it, and a branch is not entered if a layer
answers for it. Nothing else matters to the pass (`Plan.run_congr_reached`), and a failure comes from
a leaf or from a negation that it has come to (`Plan.exists_reached_fail`).
-/

namespace Conform

section UpTo
variable {α : Type} {stop : α → Bool} {x : α} {xs : List α}

/-- The elements up to the first that stops, that one included. -/
def upTo (stop : α → Bool) : List α → List α
  | [] => []
  | x :: xs => x :: if stop x then [] else upTo stop xs

theorem mem_upTo_cons_self (stop : α → Bool) (x : α) (xs : List α) : x ∈ upTo stop (x :: xs) :=
  List.mem_cons_self ..

theorem mem_upTo_cons {y : α} (hx : stop x = false) (hy : y ∈ upTo stop xs) : y ∈ upTo stop (x :: xs) := by
  rw [upTo, hx]
  exact List.mem_cons_of_mem _ hy

theorem mem_of_mem_upTo (h : x ∈ upTo stop xs) : x ∈ xs := by
  induction xs with
  | nil => exact h
  | cons y ys ih =>
    rw [upTo] at h
    rcases List.mem_cons.1 h with rfl | h
    · exact List.mem_cons_self ..
    · split at h
      · cases h
      · exact List.mem_cons_of_mem _ (ih h)

theorem exists_mem_upTo (h : ∃ x ∈ xs, stop x = true) : ∃ x ∈ upTo stop xs, stop x = true := by
  induction xs with
  | nil => obtain ⟨x, hx, -⟩ := h; cases hx
  | cons y ys ih =>
    by_cases hy : stop y = true
    · exact ⟨y, mem_upTo_cons_self .., hy⟩
    · obtain ⟨x, hx, hs⟩ := h
      rcases List.mem_cons.1 hx with rfl | hx
      · exact absurd hs hy
      · obtain ⟨z, hz, hs⟩ := ih ⟨x, hx, hs⟩
        exact ⟨z, mem_upTo_cons (Bool.not_eq_true _ ▸ hy) hz, hs⟩

theorem upTo_eq_self (h : ∀ x ∈ xs, stop x = false) : upTo stop xs = xs := by
  induction xs with
  | nil => rfl
  | cons y ys ih =>
    obtain ⟨hy, hys⟩ := List.forall_mem_cons.1 h
    rw [upTo, hy, ih hys]
    rfl

theorem any_congr_upTo {f g : α → Bool} (h : ∀ x ∈ upTo f xs, f x = g x) : xs.any f = xs.any g := by
  induction xs with
  | nil => rfl
  | cons x xs ih =>
    rw [List.any_cons, List.any_cons, ← h x (mem_upTo_cons_self ..)]
    cases hx : f x with
    | true => rfl
    | false => rw [ih fun y hy => h y (mem_upTo_cons hx hy)]

end UpTo

/-- Whether an answer settles the connective, so that its other rules are not asked. -/
def Connective.decides : Connective → Status → Bool
  | and, s | not, s => s.isFail
  | or, s => s.isSuccess

namespace Quantifier

/-- How the elements are combined, if there are any. -/
def connective : Quantifier → Connective
  | all => .and
  | any => .or

theorem connective_ne_not (q : Quantifier) : q.connective ≠ .not := by
  cases q <;> decide

end Quantifier

/-- Whether an element that answers so ends a demand. -/
def Chain.ends (c : Chain) (q : Quantifier) (scope : Member) (s : Status) : Bool :=
  match q with
  | .all => s.isFail
  | .any => c.passes scope s

theorem Chain.ends_eq {c : Chain} (hpasses : ∀ m s, c.passes m s = s.isSuccess) {q : Quantifier} (scope : Member)
    (s : Status) : c.ends q scope s = q.connective.decides s := by
  cases q with
  | all => rfl
  | any => exact hpasses scope s

theorem Chain.count_of_ends {c : Chain} {q : Quantifier} {scope : Member} {s : Status} (t : Tally)
    (h : c.ends q scope s = true) : ∃ t', c.count q scope t s = .done t' := by
  cases q with
  | all => cases eq_of_beq h; exact ⟨_, rfl⟩
  | any => exact ⟨_, if_pos h⟩

theorem Chain.count_of_not_ends {c : Chain} {q : Quantifier} {scope : Member} {s : Status} (t : Tally)
    (h : c.ends q scope s = false) : ∃ t', c.count q scope t s = .yield t' := by
  cases q with
  | all =>
    cases s with
    | fail => cases h
    | success | ignore => exact ⟨_, rfl⟩
  | any => exact ⟨_, if_neg (Bool.not_eq_true _ ▸ h)⟩

/-- A pass that runs the first plan comes to run the second, from the other cursor. -/
inductive Plan.Reaches (c : Chain) : Plan → Cursor → Plan → Cursor → Prop
  | refl (p : Plan) (cur : Cursor) : Reaches c p cur p cur
  | connect {k : Connective} {plans : List Plan} {p q : Plan} {cur cur' : Cursor}
    (hp : p ∈ upTo (fun p => k.decides (p.verdict c cur)) plans) (h : Reaches c p cur q cur') :
    Reaches c (.connect k plans) cur q cur'
  | within {b : Branch} {body q : Plan} {cur entry cur' : Cursor} (hentry : c.enters? cur b = some entry)
    (h : Reaches c body entry q cur') : Reaches c (.within b body) cur q cur'
  | forEach {container : Member} {e : Expansion} {body : Member → Plan} {cur entry cur' : Cursor}
    {found : List (Path × Object)} {x : Path × Object} {q : Plan}
    (hentry : c.enters? cur (.elements e.quantifier container) = some entry)
    (hfound : entry.found? c.terms container.path e = some found)
    (hx : x ∈ upTo (fun x => c.ends e.quantifier (container.element x.1 e.display?)
      ((body (container.element x.1 e.display?)).verdict c (entry.atElement container x))) found)
    (h : Reaches c (body (container.element x.1 e.display?)) (entry.atElement container x) q cur') :
    Reaches c (.forEach container e body) cur q cur'

/-! ### Only what is reached matters -/

/-- Two chains treat the plan alike, as far as its root goes. -/
def Plan.Alike (c c' : Chain) : Plan → Cursor → Prop
  | ask l, cur => c.ask cur l = c'.ask cur l
  | connect .., _ => True
  | within b _, cur => ∀ body, c.around cur b body = c'.around cur b body
  | forEach container e _, cur =>
    ∀ body, c.around cur (.elements e.quantifier container) body = c'.around cur (.elements e.quantifier container) body

namespace Status

theorem allAfter_congr {α : Type} {f g : α → Pass Status} {xs : List α} {seen succeeded : Bool}
    (hblind : ∀ x, Pass.Blind (f x)) (h : ∀ x ∈ upTo (fun x => (Pass.verdict (f x)).isFail) xs, f x = g x) :
    allAfter seen succeeded (xs.map f) = allAfter seen succeeded (xs.map g) := by
  induction xs generalizing seen succeeded with
  | nil => rfl
  | cons x xs ih =>
    rw [List.map_cons, List.map_cons, allAfter, allAfter, ← h x (mem_upTo_cons_self ..)]
    refine (hblind x).bind_congr ?_
    have hrest : (Pass.verdict (f x)).isFail = false → ∀ {seen succeeded},
        allAfter seen succeeded (xs.map f) = allAfter seen succeeded (xs.map g) := fun hx =>
      ih fun y hy => h y (mem_upTo_cons hx hy)
    cases hx : Pass.verdict (f x) with
    | fail => rfl
    | success | ignore => exact hrest (by rw [hx]; rfl)

theorem anyAfter_congr {α : Type} {f g : α → Pass Status} {xs : List α} {seen failed : Bool}
    (hblind : ∀ x, Pass.Blind (f x)) (h : ∀ x ∈ upTo (fun x => (Pass.verdict (f x)).isSuccess) xs, f x = g x) :
    anyAfter seen failed (xs.map f) = anyAfter seen failed (xs.map g) := by
  induction xs generalizing seen failed with
  | nil => rfl
  | cons x xs ih =>
    rw [List.map_cons, List.map_cons, anyAfter, anyAfter, ← h x (mem_upTo_cons_self ..)]
    refine (hblind x).bind_congr ?_
    have hrest : (Pass.verdict (f x)).isSuccess = false → ∀ {seen failed},
        anyAfter seen failed (xs.map f) = anyAfter seen failed (xs.map g) := fun hx =>
      ih fun y hy => h y (mem_upTo_cons hx hy)
    cases hx : Pass.verdict (f x) with
    | success => rfl
    | fail | ignore => exact hrest (by rw [hx]; rfl)

end Status

namespace Chain
variable {c c' : Chain} {container : Member} {e : Expansion} {body body' : Eval} {cur : Cursor}
  {found : List (Path × Object)}

theorem connect_congr {α : Type} {f g : α → Pass Status} {xs : List α} (k : Connective) (hblind : ∀ x, Pass.Blind (f x))
    (h : ∀ x ∈ upTo (fun x => k.decides (Pass.verdict (f x))) xs, f x = g x) :
    connect k (xs.map f) = connect k (xs.map g) := by
  cases k with
  | and => exact Status.allAfter_congr hblind h
  | or => exact Status.anyAfter_congr hblind h
  | not => exact congrArg (Status.negate <$> ·) (Status.allAfter_congr hblind h)

theorem tally_congr_upTo (hempty : c.settings.allEmpty = c'.settings.allEmpty)
    (hpasses : ∀ m s, c.passes m s = c'.passes m s) (hblind : ∀ cur scope, Pass.Blind (body cur scope))
    (h : ∀ x ∈ upTo (fun x => c.ends e.quantifier (container.element x.1 e.display?)
        (Pass.verdict (body (cur.atElement container x) (container.element x.1 e.display?)))) found,
      body (cur.atElement container x) (container.element x.1 e.display?) =
        body' (cur.atElement container x) (container.element x.1 e.display?)) :
    c.tally container e body cur found = c'.tally container e body' cur found := by
  have hcount : c.count = c'.count := by
    funext q scope t s
    simp only [count, hpasses]
  rw [tally_eq_map, tally_eq_map, hempty]
  refine congrArg _ ?_
  -- the loop goes on with what it has counted so far
  generalize ({} : Tally) = t
  induction found generalizing t with
  | nil => rfl
  | cons x xs ih =>
    have hx := h x (mem_upTo_cons_self ..)
    have hvisit : c.visit container e body cur x t = c'.visit container e body' cur x t := by
      rw [visit, visit, hx, hcount]
    rw [visitEach_cons, visitEach_cons, ← hvisit]
    refine (blind_visit hblind x t).bind_congr ?_
    rw [visit, Pass.verdict_map]
    cases hends : c.ends e.quantifier (container.element x.1 e.display?)
        (Pass.verdict (body (cur.atElement container x) (container.element x.1 e.display?))) with
    | true =>
      obtain ⟨t', ht⟩ := count_of_ends t hends
      rw [ht]; rfl
    | false =>
      cases c.count e.quantifier (container.element x.1 e.display?) t _ with
      | done t' => rfl
      | yield t' => exact ih (fun y hy => h y (mem_upTo_cons hends hy)) t'

end Chain

/-- Two chains run a plan alike if they treat alike whatever the first comes to. -/
theorem Plan.run_congr_reached {c c' : Chain} [c.HandlerFree] (hregistry : c.registry = c'.registry)
    (hdepth : c.settings.maxTreeDepth? = c'.settings.maxTreeDepth?)
    (hempty : c.settings.allEmpty = c'.settings.allEmpty)
    (hpasses : ∀ m s, c.passes m s = c'.passes m s) {p : Plan} {cur : Cursor}
    (h : ∀ q cur', p.Reaches c cur q cur' → q.Alike c c' cur') : p.run c cur = p.run c' cur := by
  induction p generalizing cur with
  | ask l => exact h _ _ (.refl ..)
  | connect k plans ih =>
    rw [run, run, runs_eq_map, runs_eq_map]
    refine Chain.connect_congr k (fun p => p.blind_run c cur) fun p hp => ?_
    exact ih p (mem_of_mem_upTo hp) fun q cur' hq => h q cur' (.connect hp hq)
  | within b body ih =>
    have hbody : ∀ entry, c.enters? cur b = some entry → body.run c entry = body.run c' entry := fun entry hentry =>
      ih fun q cur' hq => h q cur' (.within hentry hq)
    rw [run, run, Chain.around_congr hbody]
    exact h _ _ (.refl ..) _
  | forEach container e body ih =>
    have hfound : ∀ cur : Cursor, cur.found? c.terms container.path e = cur.found? c'.terms container.path e :=
      fun cur => cur.found?_congr hregistry hdepth _ e
    have helements : ∀ entry, c.enters? cur (.elements e.quantifier container) = some entry →
        c.overElements container e (fun cur scope => (body scope).run c cur) entry =
          c'.overElements container e (fun cur scope => (body scope).run c' cur) entry := by
      intro entry hentry
      cases hf : entry.found? c.terms container.path e with
      | none => rw [Chain.overElements_none hf, Chain.overElements_none ((hfound entry).symm.trans hf)]
      | some found =>
        rw [Chain.overElements_some hf, Chain.overElements_some ((hfound entry).symm.trans hf)]
        refine Chain.tally_congr_upTo hempty hpasses (fun cur scope => (body scope).blind_run c cur) fun x hx => ?_
        exact ih _ fun q cur' hq => h q cur' (.forEach hentry hf hx hq)
    rw [run, run, Chain.demand, Chain.demand, Chain.around_congr helements]
    exact h _ _ (.refl ..) _

theorem Plan.run_congr {c c' : Chain} [c.HandlerFree] (hregistry : c.registry = c'.registry)
    (hdepth : c.settings.maxTreeDepth? = c'.settings.maxTreeDepth?)
    (hempty : c.settings.allEmpty = c'.settings.allEmpty)
    (hpasses : ∀ m s, c.passes m s = c'.passes m s)
    (hask : ∀ cur l, c.ask cur l = c'.ask cur l)
    (haround : ∀ cur b body, c.around cur b body = c'.around cur b body) (p : Plan) (cur : Cursor) :
    p.run c cur = p.run c' cur := by
  refine run_congr_reached hregistry hdepth hempty hpasses fun q cur' _ => ?_
  cases q with
  | ask l => exact hask cur' l
  | connect => trivial
  | within b => exact haround cur' b
  | forEach container e => exact haround cur' _

/-! ### Where failures come from -/

theorem Status.mem_of_any_isFail {statuses : List Status} (h : statuses.any isFail = true) : .fail ∈ statuses := by
  obtain ⟨s, hs, hfail⟩ := List.any_eq_true.1 h
  exact eq_of_beq hfail ▸ hs

theorem Status.mem_of_allOf_fail {statuses : List Status} (h : allOf statuses = .fail) : .fail ∈ statuses := by
  cases hfail : statuses.any isFail with
  | true => exact mem_of_any_isFail hfail
  | false =>
    rw [allOf, hfail, allSeen] at h
    split at h
    next hfalse => cases hfalse
    · split at h <;> cases h

theorem Status.mem_of_anyOf_fail {statuses : List Status} (h : anyOf statuses = .fail) :
    .fail ∈ statuses ∧ ∀ s ∈ statuses, s.isSuccess = false := by
  cases hsuccess : statuses.any isSuccess with
  | true => rw [anyOf, hsuccess] at h; cases h
  | false =>
    refine ⟨?_, fun s hs => by simpa using List.any_eq_false.1 hsuccess s hs⟩
    cases hfail : statuses.any isFail with
    | true => exact mem_of_any_isFail hfail
    | false =>
      rw [anyOf, hsuccess, hfail, anySeen] at h
      split at h
      next hfalse => cases hfalse
      · split at h <;> cases h

namespace Plan

/-- Whether a plan turns answers round. -/
def negates : Plan → Bool
  | connect .not _ | within (.group .not ..) _ => true
  | _ => false

def isLeaf : Plan → Bool
  | ask _ => true
  | _ => false

variable {c : Chain} {p q : Plan} {cur cur' : Cursor}

theorem exists_mem_upTo_fail {k : Connective} {plans : List Plan} (hk : k ≠ .not)
    (h : (connect k plans).verdict c cur = .fail) :
    ∃ p ∈ upTo (fun p => k.decides (p.verdict c cur)) plans, p.verdict c cur = .fail := by
  rw [verdict_connect] at h
  cases k with
  | and =>
    obtain ⟨p, hp, hfail⟩ := List.mem_map.1 (Status.mem_of_allOf_fail h)
    have hstop : ∃ p ∈ plans, Connective.and.decides (p.verdict c cur) = true := ⟨p, hp, by rw [hfail]; rfl⟩
    obtain ⟨q, hq, hstop⟩ := exists_mem_upTo hstop
    exact ⟨q, hq, eq_of_beq hstop⟩
  | or =>
    obtain ⟨hfail, hsuccess⟩ := Status.mem_of_anyOf_fail h
    obtain ⟨p, hp, hfail⟩ := List.mem_map.1 hfail
    have hall : upTo (fun p => Connective.or.decides (p.verdict c cur)) plans = plans :=
      upTo_eq_self fun p hp => hsuccess _ (List.mem_map_of_mem hp)
    exact ⟨p, by rwa [hall], hfail⟩
  | not => exact absurd rfl hk

end Plan

theorem Tally.conclude_ne_fail {t : Tally} {allEmpty : Status} (hempty : allEmpty ≠ .fail) (ht : t.failed = false)
    (q : Quantifier) : t.conclude q allEmpty ≠ .fail := by
  obtain ⟨seen, succeeded, failed⟩ := t
  subst ht
  cases q with
  | all =>
    cases seen with
    | false => exact hempty
    | true => cases succeeded <;> exact nofun
  | any => cases succeeded <;> exact nofun

namespace Chain
variable {c : Chain} {container : Member} {e : Expansion} {body : Eval} {cur : Cursor}
  {found : List (Path × Object)}

theorem failed_of_count {q : Quantifier} {scope : Member} {t : Tally} {s : Status} (hs : s ≠ .fail)
    (ht : t.failed = false) : (c.count q scope t s).value.failed = false := by
  have hfail : s.isFail = false := by simpa [Status.isFail] using hs
  cases q with
  | all =>
    cases s with
    | fail => exact absurd rfl hs
    | success | ignore => exact ht
  | any =>
    rw [count, Tally.addAny]
    split
    · exact ht
    · simp [ForInStep.value, ht, hfail]

theorem verdict_tally_ne_fail (hempty : c.settings.allEmpty ≠ .fail) (hblind : ∀ cur scope, Pass.Blind (body cur scope))
    (h : ∀ x ∈ upTo (fun x => c.ends e.quantifier (container.element x.1 e.display?)
        (Pass.verdict (body (cur.atElement container x) (container.element x.1 e.display?)))) found,
      Pass.verdict (body (cur.atElement container x) (container.element x.1 e.display?)) ≠ .fail) :
    Pass.verdict (c.tally container e body cur found) ≠ .fail := by
  rw [tally_eq_map, Pass.verdict_map]
  suffices ∀ t : Tally, t.failed = false →
      (Pass.verdict (visitEach (c.visit container e body cur) found t)).value.failed = false from
    Tally.conclude_ne_fail hempty (this {} rfl) _
  induction found with
  | nil => exact fun t ht => ht
  | cons x xs ih =>
    intro t ht
    have hcount : (c.count e.quantifier (container.element x.1 e.display?) t _).value.failed = false :=
      failed_of_count (h x (mem_upTo_cons_self ..)) ht
    rw [Pass.verdict_visitEach_cons fun x _ t => blind_visit hblind x t, visit, Pass.verdict_map]
    cases hends : c.ends e.quantifier (container.element x.1 e.display?)
        (Pass.verdict (body (cur.atElement container x) (container.element x.1 e.display?))) with
    | true =>
      obtain ⟨t', ht'⟩ := count_of_ends t hends
      rw [ht'] at hcount ⊢
      exact hcount
    | false =>
      cases hstep : c.count e.quantifier (container.element x.1 e.display?) t _ with
      | done t' => rw [hstep] at hcount; exact hcount
      | yield t' => rw [hstep] at hcount; exact ih (fun y hy => h y (mem_upTo_cons hends hy)) t' hcount

end Chain

namespace Plan
variable {c : Chain} {p q : Plan} {cur cur' : Cursor}

/-- A failure comes from a leaf or a negation that the pass comes to and that fails. -/
theorem exists_reached_fail [c.HandlerFree] (hempty : c.settings.allEmpty ≠ .fail) (h : p.verdict c cur = .fail) :
    ∃ q cur', p.Reaches c cur q cur' ∧ q.verdict c cur' = .fail ∧ (q.isLeaf = true ∨ q.negates = true) := by
  induction p generalizing cur with
  | ask l => exact ⟨_, _, .refl .., h, .inl rfl⟩
  | connect k plans ih =>
    by_cases hk : k = .not
    · exact ⟨_, _, .refl .., h, .inr (by rw [hk]; rfl)⟩
    · obtain ⟨p, hp, hfail⟩ := exists_mem_upTo_fail hk h
      obtain ⟨q, cur', hq, hrest⟩ := ih p (mem_of_mem_upTo hp) hfail
      exact ⟨q, cur', .connect hp hq, hrest⟩
  | within b body ih =>
    rw [verdict_within] at h
    cases hentry : c.enters? cur b with
    | none =>
      obtain ⟨scope, rules, rfl⟩ := Chain.group_not_of_enters? hentry
      exact ⟨_, _, .refl .., by rw [verdict_within, hentry]; rfl, .inr rfl⟩
    | some entry =>
      rw [hentry] at h
      obtain ⟨q, cur', hq, hrest⟩ := ih h
      exact ⟨q, cur', .within hentry hq, hrest⟩
  | forEach container e body ih =>
    obtain ⟨entry, hentry⟩ := c.enters?_elements cur e.quantifier container
    rw [verdict_forEach, hentry, Option.map_some, Option.getD_some, elementsVerdict] at h
    cases hfound : entry.found? c.terms container.path e with
    | none => rw [hfound] at h; cases h
    | some found =>
      rw [hfound] at h
      by_contra hnone
      refine Chain.verdict_tally_ne_fail hempty (fun cur scope => (body scope).blind_run c cur) (fun x hx hfail => ?_) h
      obtain ⟨q, cur', hq, hrest⟩ := ih _ hfail
      exact hnone ⟨q, cur', .forEach hentry hfound hx hq, hrest⟩

end Plan

end Conform
