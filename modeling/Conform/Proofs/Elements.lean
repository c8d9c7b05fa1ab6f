import Conform.Pass.Evaluate
import Conform.Proofs.Expansions
import Conform.Proofs.Sight

/-!
# Demands on elements

A demand on the elements of a container is a loop over the list of what its expansion leads to
(`Chain.overElements_eq`). Two loops agree if they run over the same places and their bodies agree
at each of them (`Chain.tally_congr`).
-/

namespace Conform

/-- What an expansion leads to from a place of `o`. -/
def Terms.found? (t : Terms) (o : Object) (p : Path) (e : Expansion) : Option (List (Path × Object)) :=
  (t.registry.at? o p).bind fun x => t.registry.found? t.settings.maxTreeDepth? x e

theorem exists_of_mem_getD_bind {α β : Type} {a? : Option α} {f : α → Option (List β)} {x : β}
    (h : x ∈ (a?.bind f).getD []) : ∃ a xs, a? = some a ∧ f a = some xs ∧ x ∈ xs := by
  cases a? with
  | none => cases h
  | some a =>
    rw [Option.bind_some] at h
    cases hf : f a with
    | none => rw [hf] at h; cases h
    | some xs => rw [hf] at h; exact ⟨a, xs, rfl, hf, h⟩

namespace Terms
variable {t : Terms} {o y : Object} {m p s : Path} {e : Expansion} {x : Path × Object}

theorem at?_of_mem_found? (ho : o.WellFormed) (hx : (s, y) ∈ (t.found? o p e).getD []) :
    t.registry.at? o (p ++ s) = some y := by
  obtain ⟨z, found, hz, hf, hx⟩ := exists_of_mem_getD_bind hx
  have hl := Registry.leads_of_mem_found? (Registry.wellFormed_at? ho hz) hf hx
  rw [Registry.at?_append, hz, Option.bind_some, hl.at_eq]

theorem literal_of_mem_found? (hx : x ∈ (t.found? o p e).getD []) : x.1.Literal := by
  obtain ⟨z, found, -, hf, hx⟩ := exists_of_mem_getD_bind hx
  exact Registry.literal_of_mem_found? hf hx

/-- From outside of a place, only trees step past it. -/
theorem eq_of_mem_found? (he : e.isTree = false) (hm : ¬ m <+: p) (hx : x ∈ (t.found? o p e).getD [])
    (hpre : m <+: p ++ x.1) : p ++ x.1 = m := by
  obtain ⟨z, found, -, hf, hx⟩ := exists_of_mem_getD_bind hx
  obtain ⟨k, hk⟩ := Registry.exists_key_of_mem_found? (x := x.2) he hf hx
  rw [hk] at hpre ⊢
  exact ((List.prefix_concat_iff.1 hpre).resolve_right hm).symm

end Terms

/-- What an expansion leads to from a container, as the cursor sees it. -/
def Cursor.found? (cur : Cursor) (t : Terms) (container : Path) (e : Expansion) :
    Option (List (Path × Object)) :=
  (cur.sees? t.registry container).bind fun o => t.registry.found? t.settings.maxTreeDepth? o e

theorem Cursor.literal_of_mem_found? {t : Terms} {cur : Cursor} {p : Path} {e : Expansion} {x : Path × Object}
    (hx : x ∈ (cur.found? t p e).getD []) : x.1.Literal := by
  obtain ⟨z, found, -, hf, hx⟩ := exists_of_mem_getD_bind hx
  exact Registry.literal_of_mem_found? hf hx

theorem Cursor.found?_congr {t t' : Terms} (hregistry : t.registry = t'.registry)
    (hdepth : t.settings.maxTreeDepth? = t'.settings.maxTreeDepth?) (cur : Cursor) (p : Path) (e : Expansion) :
    cur.found? t p e = cur.found? t' p e := by
  rw [found?, found?, hregistry, hdepth]

theorem Cursor.Stands.found? {t : Terms} {o : Object} {cur : Cursor} {p : Path} (h : cur.Stands t.registry o p)
    (e : Expansion) : cur.found? t p e = t.found? o p e := by
  rw [Cursor.found?, h.sees, Terms.found?]

def Cursor.atElement (cur : Cursor) (container : Member) (x : Path × Object) : Cursor :=
  cur.moveTo
    { object := x.2
      candidate? :=
        if x.1 = [] ∧ container.path.length = cur.consumed then cur.origin.candidate? else none }
    (container.path ++ x.1).length

namespace Chain
variable (c : Chain)

def count (q : Quantifier) (scope : Member) (t : Tally) (s : Status) : ForInStep Tally :=
  match q with
  | .all => t.addAll s
  | .any => t.addAny (c.passes scope s) s

/-- The loop over the elements of a container. -/
def tally (container : Member) (e : Expansion) (body : Eval) (cur : Cursor)
    (found : List (Path × Object)) : Pass Status := do
  let visit (x : Path × Object) (t : Tally) : Pass (ForInStep Tally) :=
    let scope := container.element x.1 e.display?
    c.count e.quantifier scope t <$> body (cur.atElement container x) scope
  match ← visitEach visit found {} with
  | .done t | .yield t => pure (t.conclude e.quantifier c.settings.allEmpty)

theorem overElements_eq (container : Member) (e : Expansion) (body : Eval) (cur : Cursor) :
    c.overElements container e body cur =
      match cur.found? c.terms container.path e with
      | none => pure .ignore
      | some found => c.tally container e body cur found := by
  have hsees := cur.originOf?_object c.registry container
  unfold overElements Cursor.found?
  rw [registry] at hsees
  rw [← hsees, registry]
  cases ho : cur.originOf? c.terms.registry container with
  | none => rfl
  | some origin =>
    have hcand : origin.candidate? =
        if container.path.length = cur.consumed then cur.origin.candidate? else none := by
      obtain ⟨f, -, rfl⟩ := Option.map_eq_some_iff.1 ho
      rfl
    simp only [Option.map_some, Option.bind_some, Registry.visit_eq, settings]
    cases hf : c.terms.registry.found? c.terms.settings.maxTreeDepth? origin.object e with
    | none => rfl
    | some found =>
      simp only [Option.map_some, tally, settings]
      congr 2
      funext x t
      have hat : cur.atElement container x =
          cur.moveTo { object := x.2, candidate? := if x.1.isEmpty then origin.candidate? else none }
            (container.element x.1 e.display?).path.length := by
        rw [Cursor.atElement, hcand]
        cases x.1 <;> simp [Member.element]
      rw [hat, map_eq_pure_bind]
      refine bind_congr fun s => ?_
      unfold count
      cases e.quantifier <;> rfl

variable {c} {c' : Chain} {container : Member} {e : Expansion} {body body' : Eval} {cur cur' : Cursor}
  {found found' : List (Path × Object)}

theorem overElements_none (h : cur.found? c.terms container.path e = none) :
    c.overElements container e body cur = pure .ignore := by
  rw [overElements_eq, h]

theorem overElements_some (h : cur.found? c.terms container.path e = some found) :
    c.overElements container e body cur = c.tally container e body cur found := by
  rw [overElements_eq, h]

theorem tally_congr (hempty : c.settings.allEmpty = c'.settings.allEmpty)
    (hpasses : ∀ m s, c.passes m s = c'.passes m s)
    (h : List.Forall₂ (fun x x' => x.1 = x'.1 ∧
      body (cur.atElement container x) (container.element x.1 e.display?) =
        body' (cur'.atElement container x') (container.element x'.1 e.display?)) found found') :
    c.tally container e body cur found = c'.tally container e body' cur' found' := by
  have hcount : c.count e.quantifier = c'.count e.quantifier := by
    funext scope t s
    simp only [count, hpasses]
  have hloop := visitEach_congr (h.imp fun x x' ⟨hplace, hbody⟩ => show
    (fun t => c.count e.quantifier (container.element x.1 e.display?) t <$>
      body (cur.atElement container x) (container.element x.1 e.display?)) =
    fun t => c'.count e.quantifier (container.element x'.1 e.display?) t <$>
      body' (cur'.atElement container x') (container.element x'.1 e.display?) by
    rw [hcount, hbody, hplace]) {}
  simp only [tally, hloop, hempty]

theorem overElements_congr (hempty : c.settings.allEmpty = c'.settings.allEmpty)
    (hpasses : ∀ m s, c.passes m s = c'.passes m s)
    (hfound : cur.found? c.terms container.path e = cur'.found? c'.terms container.path e)
    (hbody : ∀ x ∈ (cur.found? c.terms container.path e).getD [],
      body (cur.atElement container x) (container.element x.1 e.display?) =
        body' (cur'.atElement container x) (container.element x.1 e.display?)) :
    c.overElements container e body cur = c'.overElements container e body' cur' := by
  cases hf : cur.found? c.terms container.path e with
  | none => rw [overElements_none hf, overElements_none (hfound.symm.trans hf)]
  | some found =>
    rw [hf] at hbody
    rw [overElements_some hf, overElements_some (hfound.symm.trans hf)]
    exact tally_congr hempty hpasses (List.forall₂_same.2 fun x hx => ⟨rfl, hbody x hx⟩)

/-- It is enough that they lead to the same places. -/
theorem overElements_congr_places (hempty : c.settings.allEmpty = c'.settings.allEmpty)
    (hpasses : ∀ m s, c.passes m s = c'.passes m s)
    (hplaces : (cur.found? c.terms container.path e).map (·.map Prod.fst) =
      (cur'.found? c'.terms container.path e).map (·.map Prod.fst))
    (hbody : ∀ s y y', (s, y) ∈ (cur.found? c.terms container.path e).getD [] →
      (s, y') ∈ (cur'.found? c'.terms container.path e).getD [] →
      body (cur.atElement container (s, y)) (container.element s e.display?) =
        body' (cur'.atElement container (s, y')) (container.element s e.display?)) :
    c.overElements container e body cur = c'.overElements container e body' cur' := by
  cases hf : cur.found? c.terms container.path e with
  | none =>
    rw [hf] at hplaces
    rw [overElements_none hf, overElements_none (Option.map_eq_none_iff.1 hplaces.symm)]
  | some found =>
    rw [hf] at hplaces hbody
    obtain ⟨found', hf', hmap⟩ := Option.map_eq_some_iff.1 hplaces.symm
    rw [hf'] at hbody
    rw [overElements_some hf, overElements_some hf']
    refine tally_congr hempty hpasses ((forall₂_of_map_eq hmap.symm).imp ?_)
    rintro ⟨s, y⟩ ⟨s', y'⟩ ⟨rfl, hy, hy'⟩
    exact ⟨rfl, hbody s y y' hy hy'⟩

end Chain

/-! ### Elements that always answer the same -/

def Quantifier.fold (q : Quantifier) (allEmpty : Status) (statuses : List Status) : Status :=
  match q with
  | .all => if statuses.isEmpty then allEmpty else .allOf statuses
  | .any => if statuses.isEmpty then .ignore else .anyOf statuses

theorem Status.allOf_of_success {statuses : List Status} (h : ∀ s ∈ statuses, s = .success) :
    allOf statuses = .success := by
  have hfail : statuses.any isFail = false := List.any_eq_false.2 fun s hs => by rw [h s hs]; decide
  rw [allOf, hfail]
  cases statuses with
  | nil => rfl
  | cons s ss =>
    have hsuccess : (s :: ss).any isSuccess = true := List.any_eq_true.2 ⟨s, by simp, by rw [h s (by simp)]; rfl⟩
    rw [hsuccess]
    rfl

theorem Quantifier.fold_all_success {allEmpty : Status} {statuses : List Status} (hne : statuses ≠ [])
    (h : ∀ s ∈ statuses, s = .success) : fold .all allEmpty statuses = .success := by
  cases statuses with
  | nil => exact absurd rfl hne
  | cons s ss => exact Status.allOf_of_success h

namespace Tally

def step (q : Quantifier) (t : Tally) (s : Status) : ForInStep Tally :=
  match q with
  | .all => t.addAll s
  | .any => t.addAny s.isSuccess s

def conclusion (q : Quantifier) (allEmpty : Status) : List Status → Tally → Status
  | [], t => t.conclude q allEmpty
  | s :: ss, t => match t.step q s with
    | .done t => t.conclude q allEmpty
    | .yield t => conclusion q allEmpty ss t

theorem conclusion_all (allEmpty : Status) (ss : List Status) (seen succeeded : Bool) :
    conclusion .all allEmpty ss ⟨seen, succeeded, false⟩ =
      if ss.any Status.isFail then .fail
      else conclude ⟨seen || !ss.isEmpty, succeeded || ss.any Status.isSuccess, false⟩ .all allEmpty := by
  induction ss generalizing seen succeeded with
  | nil => simp [conclusion]
  | cons s ss ih =>
    cases s with
    | success => simp [conclusion, step, addAll, ih, Status.isFail, Status.isSuccess]
    | fail => simp [conclusion, step, addAll, conclude, Status.isFail]
    | ignore =>
      simp [conclusion, step, addAll, ih, Status.isFail, Status.isSuccess,
        show (Status.ignore == Status.success) = false from rfl]

theorem conclusion_any (allEmpty : Status) (ss : List Status) (seen failed : Bool) :
    conclusion .any allEmpty ss ⟨seen, false, failed⟩ =
      if ss.any Status.isSuccess then .success
      else conclude ⟨seen || !ss.isEmpty, false, failed || ss.any Status.isFail⟩ .any allEmpty := by
  induction ss generalizing seen failed with
  | nil => simp [conclusion]
  | cons s ss ih =>
    cases s with
    | success => simp [conclusion, step, addAny, conclude, Status.isSuccess]
    | fail => simp [conclusion, step, addAny, ih, Status.isFail, Status.isSuccess]
    | ignore =>
      simp [conclusion, step, addAny, ih, Status.isFail, Status.isSuccess,
        show (Status.ignore == Status.fail) = false from rfl]

/-- Breaking the loop off does not change the conclusion. -/
theorem conclusion_eq_fold (q : Quantifier) (allEmpty : Status) (ss : List Status) :
    conclusion q allEmpty ss {} = q.fold allEmpty ss := by
  cases q with
  | all =>
    rw [conclusion_all, Quantifier.fold]
    cases ss <;> simp [conclude, Status.allOf, Status.allSeen]
  | any =>
    rw [conclusion_any, Quantifier.fold]
    cases ss <;> simp [conclude, Status.anyOf, Status.anySeen]

end Tally

theorem Chain.tally_pure {c : Chain} {container : Member} {e : Expansion} {body : Eval} {cur : Cursor}
    {found : List (Path × Object)} {f : Path × Object → Status}
    (hpasses : ∀ m s, c.passes m s = s.isSuccess)
    (h : ∀ x ∈ found, body (cur.atElement container x) (container.element x.1 e.display?) = pure (f x)) :
    c.tally container e body cur found =
      pure (e.quantifier.fold c.settings.allEmpty (found.map f)) := by
  have hcount : ∀ scope, c.count e.quantifier scope = Tally.step e.quantifier := by
    intro scope
    funext t s
    simp only [count, Tally.step, hpasses]
  simp only [tally, hcount, ← Tally.conclusion_eq_fold]
  generalize ({} : Tally) = t
  induction found generalizing t with
  | nil => simp [visitEach, Tally.conclusion]
  | cons x xs ih =>
    have hx := h x (List.mem_cons_self ..)
    rw [visitEach_cons, hx, List.map_cons, Tally.conclusion, map_pure, pure_bind]
    cases t.step e.quantifier (f x) with
    | done t => simp [ForInStep.andThen]
    | yield t => exact ih (fun y hy => h y (List.mem_cons_of_mem _ hy)) t

end Conform
