import Conform.Failure
import Conform.Pass.Evaluate

/-!
# Validators

A validator holds a rule with the terms and the locale under which it is evaluated. It can check a
whole object, only what concerns one member, or a candidate for a member before it is written.
-/

namespace Conform

/-- The result of one pass. -/
structure Outcome where
  status : Status
  /-- Empty unless something failed. -/
  text : String
  /-- The paths of failing members, also of those inside rules that hold after all. -/
  failed : List String
deriving DecidableEq, Repr

namespace Outcome

/-- Only a failure is a failure; a rule that does not apply passes. -/
def isValid (o : Outcome) : Bool :=
  !o.status.isFail

def result (o : Outcome) : Except Failure Unit :=
  if o.isValid then pure () else throw (.ofReport o.text o.failed)

theorem result_of_ne_fail {o : Outcome} (h : o.status ≠ .fail) : o.result = .ok () :=
  if_pos (by simp [isValid, Status.isFail, h])

theorem result_of_fail {o : Outcome} (h : o.status = .fail) : o.result = .error (.ofReport o.text o.failed) :=
  if_neg (by simp [isValid, Status.isFail, h])

end Outcome

/-- Which leaves of a rule a pass asks. -/
inductive Filter where
  | everything
  /-- Those on a member and what lies below it. -/
  | member (m : Member)
  /-- Those on a candidate, as if it were stored. -/
  | candidate (m : Member) (object : Object) (strict : Bool)

namespace Filter

def layers : Filter → List Layer
  | everything => []
  | member m => [.single m.path]
  | candidate m object strict => [.candidate { path := m.path, object, strict }]

end Filter

structure Validator where
  rule : Rule
  terms : Terms := {}
  locale : Locale := .english

namespace Validator

variable (v : Validator)

def chain (filter : Filter) : Chain :=
  .arrange (filter.layers ++ [.reporting]) v.terms

instance (filter : Filter) : (v.chain filter).HandlerFree where
  isHandler_eq := by
    cases filter <;> cases h : v.terms.settings.existence <;>
      simp [chain, Chain.arrange, Filter.layers, Layer.role, Layer.ofExistence?, Layer.isHandler, h]

/-- One pass over an object. -/
def run (o : Object) (filter : Filter) : Outcome :=
  let (status, rec) :=
    ((v.chain filter).evaluate v.rule o).run { reporter := { locale := v.locale } }
  let report := rec.reporter.finish
  { status, text := report.text, failed := report.failed }

/-- Evaluates the whole rule. -/
def validate (o : Object) : Outcome :=
  v.run o .everything

def status (o : Object) : Status :=
  (v.validate o).status

def check (o : Object) : Except Failure Unit :=
  (v.validate o).result

/-- Evaluates only what concerns a member or what lies below it. -/
def validateMember (o : Object) (m : Member) : Outcome :=
  v.run o (.member m)

/-- Evaluates what concerns a member as if the candidate were stored there. -/
def prevalidate (o : Object) (m : Member) (candidate : Object) : Outcome :=
  v.run o (.candidate m candidate false)

/-- Like `prevalidate`, but a demand for any element is met only by the candidate. -/
def prevalidateStrict (o : Object) (m : Member) (candidate : Object) : Outcome :=
  v.run o (.candidate m candidate true)

end Validator

end Conform
