/-!
# Statuses

A rule holds (`success`), is violated (`fail`) or does not apply (`ignore`). `Status.allOf` and
`Status.anyOf` combine the statuses of several rules; `Status.allM` and `Status.anyM` do the same
for rules still to be run, and run no more of them than the answer needs.
-/

namespace Conform

/-- The answer to a rule. -/
inductive Status where
  | success
  | fail
  | ignore
deriving DecidableEq, Repr, Inhabited

namespace Status

def ofBool (ok : Bool) : Status :=
  if ok then success else fail

/-- A verdict that could not be reached is `ignore`. -/
def ofOption : Option Bool → Status
  | some ok => ofBool ok
  | none => ignore

def isSuccess (s : Status) : Bool :=
  s == success

def isFail (s : Status) : Bool :=
  s == fail

def isIgnore (s : Status) : Bool :=
  s == ignore

/-- Success and failure trade places; a rule that does not apply still does not apply. -/
def negate : Status → Status
  | success => fail
  | fail => success
  | ignore => ignore

@[simp] theorem negate_negate (s : Status) : s.negate.negate = s := by
  cases s <;> rfl

def text : Status → String
  | success => "success"
  | fail => "fail"
  | ignore => "ignore"

/-- The status a text names. -/
def ofText? : String → Option Status
  | "success" => some success
  | "fail" => some fail
  | "ignore" => some ignore
  | _ => none

/-! ### Combining statuses -/

/-- What a conjunction answers once every element has been seen: `seen` tells whether there was
one, `succeeded` whether one succeeded, and none failed. -/
def allSeen (seen succeeded : Bool) : Status :=
  if !seen || succeeded then success else ignore

/-- What a disjunction answers once every element has been seen and none succeeded. -/
def anySeen (seen failed : Bool) : Status :=
  if !seen then success else if failed then fail else ignore

/-- Conjunction: a failure decides; otherwise one success is enough, and only statuses that all
are `ignore` give `ignore`. The empty conjunction holds. -/
def allOf (statuses : List Status) : Status :=
  if statuses.any isFail then fail else allSeen (!statuses.isEmpty) (statuses.any isSuccess)

/-- Disjunction: a success decides; otherwise one failure is enough. The empty disjunction
holds. -/
def anyOf (statuses : List Status) : Status :=
  if statuses.any isSuccess then success else anySeen (!statuses.isEmpty) (statuses.any isFail)

section Lazily

variable {m : Type → Type} [Monad m]

/-- The conjunction of `runs` after elements described by `seen` and `succeeded`; it stops at the
first failure. -/
def allAfter (seen succeeded : Bool) : List (m Status) → m Status
  | [] => pure (allSeen seen succeeded)
  | run :: runs => do
    match ← run with
    | fail => pure fail
    | success => allAfter true true runs
    | ignore => allAfter true succeeded runs

/-- Runs the elements in order up to the first failure. -/
def allM (runs : List (m Status)) : m Status :=
  allAfter false false runs

/-- The disjunction of `runs` after elements described by `seen` and `failed`; it stops at the
first success. -/
def anyAfter (seen failed : Bool) : List (m Status) → m Status
  | [] => pure (anySeen seen failed)
  | run :: runs => do
    match ← run with
    | success => pure success
    | fail => anyAfter true true runs
    | ignore => anyAfter true failed runs

/-- Runs the elements in order up to the first success. -/
def anyM (runs : List (m Status)) : m Status :=
  anyAfter false false runs

variable [LawfulMonad m]

theorem allAfter_pure (seen succeeded : Bool) (statuses : List Status) :
    allAfter (m := m) seen succeeded (statuses.map pure) =
      pure (if statuses.any isFail then fail
        else allSeen (seen || !statuses.isEmpty) (succeeded || statuses.any isSuccess)) := by
  induction statuses generalizing seen succeeded with
  | nil => simp [allAfter]
  | cons s ss ih =>
    cases s
    case success => simp [allAfter, ih, isFail, isSuccess]
    case fail => simp [allAfter, isFail]
    case ignore => simp [allAfter, ih, isFail, isSuccess, show (ignore == success) = false from rfl]

/-- Stopping early does not change the conjunction. -/
theorem allM_pure (statuses : List Status) :
    allM (m := m) (statuses.map pure) = pure (allOf statuses) := by
  simp [allM, allOf, allAfter_pure]

theorem anyAfter_pure (seen failed : Bool) (statuses : List Status) :
    anyAfter (m := m) seen failed (statuses.map pure) =
      pure (if statuses.any isSuccess then success
        else anySeen (seen || !statuses.isEmpty) (failed || statuses.any isFail)) := by
  induction statuses generalizing seen failed with
  | nil => simp [anyAfter]
  | cons s ss ih =>
    cases s
    case success => simp [anyAfter, isSuccess]
    case fail => simp [anyAfter, ih, isFail, isSuccess]
    case ignore => simp [anyAfter, ih, isFail, isSuccess, show (ignore == fail) = false from rfl]

/-- Stopping early does not change the disjunction. -/
theorem anyM_pure (statuses : List Status) :
    anyM (m := m) (statuses.map pure) = pure (anyOf statuses) := by
  simp [anyM, anyOf, anyAfter_pure]

end Lazily

/-- A status that notes each time it is asked for. -/
def asked (s : Status) : StateM Nat Status :=
  modifyGet fun n => (s, n + 1)

/-- The conjunction, and how many statuses it asked for. -/
def allCounted (statuses : List Status) : Status × Nat :=
  (allM (statuses.map asked)).run 0

/-- The disjunction, and how many statuses it asked for. -/
def anyCounted (statuses : List Status) : Status × Nat :=
  (anyM (statuses.map asked)).run 0

end Status

end Conform
