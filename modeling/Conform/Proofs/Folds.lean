import Conform.Proofs.Rearrangement
import Conform.Proofs.Selection

/-!
# The algebra of statuses

The laws of conjunction and disjunction on lists of statuses: they are opposite to each other, the order of
the elements does not matter, parts may be folded first, and an element that is answered better never makes
the answer worse (`Status.laws_of_folds`). The empty list is success for both, so the laws about opposites
and parts are about lists that have elements. The folds that run ask one element after the other and leave
what decides last (`Status.allM_acting`, `Status.anyM_acting`).
-/

namespace Conform.Status

/-! ### Opposites, order and parts -/

variable {ss ts : List Status}

theorem allOf_perm (h : ss.Perm ts) : allOf ss = allOf ts :=
  Connective.fold_congr_mem (fun _ => h.mem_iff) .and

theorem anyOf_perm (h : ss.Perm ts) : anyOf ss = anyOf ts :=
  Connective.fold_congr_mem (fun _ => h.mem_iff) .or

/-- Two parts that have elements may be folded first. -/
theorem fold_append {k : Connective} (hk : k ≠ .not) (hs : ss ≠ []) (ht : ts ≠ []) :
    k.fold (ss ++ ts) = k.fold [k.fold ss, k.fold ts] := by
  have hparts : ∀ part ∈ [ss, ts], part ≠ [] := by
    intro part hpart
    rcases List.mem_cons.1 hpart with rfl | hpart
    · exact hs
    · exact List.mem_singleton.1 hpart ▸ ht
  have hfold := Connective.fold_fold (f := id) hk hparts
  rw [List.flatMap_cons, List.flatMap_singleton] at hfold
  exact hfold.symm

/-! ### Elements with effects -/

section Acting
variable {σ : Type}

/-- A status that changes a state when it is asked for. -/
def acting (act : Status → σ → σ) (s : Status) : StateM σ Status :=
  modifyGet fun st => (s, act s st)

/-- What is left when the statuses have been asked for in turn. -/
def acted (act : Status → σ → σ) (statuses : List Status) (st : σ) : σ :=
  statuses.foldl (fun st s => act s st) st

theorem allAfter_acting (act : Status → σ → σ) (seen succeeded : Bool) (statuses : List Status) (st : σ) :
    (allAfter seen succeeded (statuses.map (acting act))).run st =
      ((allAfter (m := Id) seen succeeded (statuses.map pure)).run, acted act (upTo isFail statuses) st) := by
  induction statuses generalizing seen succeeded st with
  | nil => rfl
  | cons s statuses ih =>
    cases s with
    | fail => rfl
    | success => exact ih true true (act success st)
    | ignore => exact ih true succeeded (act ignore st)

theorem anyAfter_acting (act : Status → σ → σ) (seen failed : Bool) (statuses : List Status) (st : σ) :
    (anyAfter seen failed (statuses.map (acting act))).run st =
      ((anyAfter (m := Id) seen failed (statuses.map pure)).run, acted act (upTo isSuccess statuses) st) := by
  induction statuses generalizing seen failed st with
  | nil => rfl
  | cons s statuses ih =>
    cases s with
    | success => rfl
    | fail => exact ih true true (act fail st)
    | ignore => exact ih true failed (act ignore st)

/-- The conjunction that runs answers as the one of the whole list, and only the elements up to the first
failure have been asked for. -/
theorem allM_acting (act : Status → σ → σ) (statuses : List Status) (st : σ) :
    (allM (statuses.map (acting act))).run st = (allOf statuses, acted act (upTo isFail statuses) st) := by
  rw [allM, allAfter_acting]
  exact congrArg (·.run, _) (allM_pure (m := Id) statuses)

theorem anyM_acting (act : Status → σ → σ) (statuses : List Status) (st : σ) :
    (anyM (statuses.map (acting act))).run st = (anyOf statuses, acted act (upTo isSuccess statuses) st) := by
  rw [anyM, anyAfter_acting]
  exact congrArg (·.run, _) (anyM_pure (m := Id) statuses)

theorem acted_count (statuses : List Status) (n : Nat) :
    acted (fun _ n => n + 1) statuses n = n + statuses.length := by
  induction statuses generalizing n with
  | nil => rfl
  | cons s statuses ih =>
    have hrest : acted (fun _ n => n + 1) statuses (n + 1) = n + 1 + statuses.length := ih (n + 1)
    rw [List.length_cons, Nat.add_comm statuses.length, ← Nat.add_assoc, ← hrest]
    rfl

theorem allCounted_eq (statuses : List Status) :
    allCounted statuses = (allOf statuses, (upTo isFail statuses).length) := by
  have hrun := allM_acting (fun _ n => n + 1) statuses 0
  rw [acted_count, Nat.zero_add] at hrun
  exact hrun

theorem anyCounted_eq (statuses : List Status) :
    anyCounted statuses = (anyOf statuses, (upTo isSuccess statuses).length) := by
  have hrun := anyM_acting (fun _ n => n + 1) statuses 0
  rw [acted_count, Nat.zero_add] at hrun
  exact hrun

end Acting

/-! ### All laws -/

/-- Conjunction and disjunction are opposite to each other, do not depend on the order, allow that parts are
folded first, and are monotone where failing is worse than not applying and that worse than success. The
folds that run, whatever effect asking for a status has, answer the same and ask for the statuses up to the
first that decides, and for no more. -/
theorem laws_of_folds (ss ts : List Status) :
    (ss ≠ [] → (allOf ss).negate = anyOf (ss.map negate) ∧ (anyOf ss).negate = allOf (ss.map negate)) ∧
    (ss.Perm ts → allOf ss = allOf ts ∧ anyOf ss = anyOf ts) ∧
    (ss ≠ [] → ts ≠ [] →
      allOf (ss ++ ts) = allOf [allOf ss, allOf ts] ∧ anyOf (ss ++ ts) = anyOf [anyOf ss, anyOf ts]) ∧
    ((fail < ignore ∧ ignore < success) ∧
      (List.Forall₂ (· ≤ ·) ss ts → allOf ss ≤ allOf ts ∧ anyOf ss ≤ anyOf ts)) ∧
    (∀ (σ : Type) (act : Status → σ → σ) (st : σ),
      (allM (ss.map (acting act))).run st = (allOf ss, acted act (upTo isFail ss) st) ∧
      (anyM (ss.map (acting act))).run st = (anyOf ss, acted act (upTo isSuccess ss) st)) ∧
    allCounted ss = (allOf ss, (upTo isFail ss).length) ∧ anyCounted ss = (anyOf ss, (upTo isSuccess ss).length) := by
  refine ⟨fun hs => ⟨negate_allOf hs, negate_anyOf hs⟩, fun h => ⟨allOf_perm h, anyOf_perm h⟩, fun hs ht => ⟨?_, ?_⟩,
    ⟨by decide, fun h => ⟨allOf_mono h, anyOf_mono h⟩⟩, fun σ act st => ⟨allM_acting act ss st, anyM_acting act ss st⟩,
    allCounted_eq ss, anyCounted_eq ss⟩
  · exact fold_append (k := .and) (by decide) hs ht
  · exact fold_append (k := .or) (by decide) hs ht

/-- Three statuses turned round, and two of which one gets better. -/
theorem laws_of_folds_rotated :
    ([ignore, success, fail] ≠ [] ∧ [fail, ignore, success] ≠ [] ∧
      [ignore, success, fail].Perm [fail, ignore, success] ∧
      List.Forall₂ (· ≤ ·) [fail, success] [ignore, success]) ∧
    (allOf [ignore, success, fail]).negate = anyOf ([ignore, success, fail].map negate) ∧
    allOf [ignore, success, fail] = allOf [fail, ignore, success] ∧
    anyOf ([ignore, success, fail] ++ [fail, ignore, success]) =
      anyOf [anyOf [ignore, success, fail], anyOf [fail, ignore, success]] ∧
    allOf [fail, success] ≤ allOf [ignore, success] ∧
    (anyM ([ignore, success, fail].map (acting fun s asked => asked ++ [s]))).run [] = (success, [ignore, success]) := by
  have hperm : [ignore, success, fail].Perm [fail, ignore, success] := by decide
  have hle : List.Forall₂ (· ≤ ·) [fail, success] [ignore, success] :=
    .cons (fail_le ignore) (.cons le_rfl .nil)
  obtain ⟨hopposite, horder, hparts, -, hruns, -⟩ := laws_of_folds [ignore, success, fail] [fail, ignore, success]
  obtain ⟨-, -, -, ⟨-, hmono⟩, -⟩ := laws_of_folds [fail, success] [ignore, success]
  exact ⟨⟨by decide, by decide, hperm, hle⟩, (hopposite (by decide)).1, (horder hperm).1,
    (hparts (by decide) (by decide)).2, (hmono hle).1, (hruns _ _ []).2⟩

/-- Parts must have elements: an empty one is a success, which counts beside what does not apply. -/
example : allOf ([ignore] ++ []) ≠ allOf [allOf [ignore], allOf []] := by
  decide

end Conform.Status
