import Reconcile.Compare.Equality.Demand
import Reconcile.Compare.HelperQueue

/-!
# Equality code

Code that returns false at the first difference and falls through if there is none. Helper
functions are asked for through a queue that several comparisons may share: each is written
once, behind the body of the comparison that asked for it first. Helpers know no settings,
because every place of their shape uses them.
-/

namespace Reconcile.Equality

/-- A helper function: its shape and the checks of its two parameters. -/
structure Helper where
  shape : Shape
  checks : List Check

/-- The helper function of a shape. -/
def Helper.ofShape (normalizer : Normalizer) (shape : Shape) : Helper :=
  ⟨shape, (strategy normalizer).body shape ⟨.empty, .root "a", .root "b"⟩⟩

/-- The code of a helper function. -/
def Helper.code (helper : Helper) : Code :=
  .block ("func " ++ helper.shape.helperName ++ "(a, b " ++ helper.shape.goType ++ ") bool")
    (Check.codeOf action helper.checks ++ [.line "return true"])

set_option linter.unusedVariables false in
/-- Writes all pending helpers and those that they ask for in turn. -/
def writeHelpers (normalizer : Normalizer) (queue : HelperQueue) :
    Except CompareError (List Helper) × HelperQueue :=
  match taken : queue.next? with
  | none => (.ok [], queue)
  | some (shape, rest) =>
    let helper := Helper.ofShape normalizer shape
    match met : rest.meet (Check.demandsOf helper.checks) with
    | (.error error, queue) => (.error error, queue)
    | (.ok _, queue) =>
      match writeHelpers normalizer queue with
      | (.error error, queue) => (.error error, queue)
      | (.ok helpers, queue) => (.ok (helper :: helpers), queue)
termination_by queue.weight
decreasing_by
  have taking := HelperQueue.weight_of_next? taken
  have meeting := rest.weight_meet_le (Check.demandsOf helper.checks)
  simp only [met] at meeting
  have bound : demandedSize helper.checks < shape.size :=
    demandedSize_body_lt normalizer _ _ shape _
  unfold demandedSize at bound
  omega

/-- The text of helpers with empty lines between them. -/
def helpersText (helpers : List Helper) : String :=
  "\n".intercalate (helpers.map (fun helper => Code.render [helper.code] 0))

end Equality

/-- Written equality code. -/
structure EqualityCode where
  /-- Statements that return false at the first difference. -/
  body : String
  /-- The helper functions that were asked for and not written before. -/
  helpers : String
  deriving DecidableEq, Inhabited, Repr

namespace Equality

/-- Writes checks and the helpers that they ask for. What is asked for stays in the queue. -/
def write (normalizer : Normalizer) (checks : List Check) (level : Nat) (queue : HelperQueue) :
    Except CompareError EqualityCode × HelperQueue :=
  match queue.meet (Check.demandsOf checks) with
  | (.error error, queue) => (.error error, queue)
  | (.ok _, queue) =>
    match writeHelpers normalizer queue with
    | (.error error, queue) => (.error error, queue)
    | (.ok helpers, queue) =>
      (.ok ⟨Code.renderBehindBlank (Check.codeOf action checks) level, helpersText helpers⟩, queue)

/-- The checks of the desired state of a resource. -/
def resourceChecks (resource : Resource) (normalizer : Normalizer) (first second : String) :
    Except CompareError (List Check) := do
  let tagField ← resource.tagField.mapError .tagField
  return (resourceStrategy resource normalizer (tagField.map Field.path)).resource resource
    first second

/-- The code that compares the desired states of two instances of a resource. -/
def compareResource (resource : Resource) (normalizer : Normalizer) (first second : String)
    (level : Nat) (queue : HelperQueue) : Except CompareError EqualityCode × HelperQueue :=
  match resourceChecks resource normalizer first second with
  | .error error => (.error error, queue)
  | .ok checks => write normalizer checks level queue

/-- The code that compares two values of a shape, without settings. -/
def compareShape (shape : Shape) (normalizer : Normalizer) (first second : String)
    (level : Nat) (queue : HelperQueue) : Except CompareError EqualityCode × HelperQueue :=
  write normalizer ((strategy normalizer).body shape ⟨.empty, .root first, .root second⟩) level
    queue

end Equality

end Reconcile
