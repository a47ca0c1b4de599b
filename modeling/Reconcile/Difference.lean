import Reconcile.FieldPath

/-!
# Differences

The log that emitted difference code writes to. Records keep the order in which the code came
to the fields; none is merged or dropped. A subject is different if something was recorded at
it or below it.
-/

namespace Reconcile

universe u

/-- A difference between two instances. -/
structure Difference (α : Type u) where
  path : FieldPath
  first : α
  second : α
  deriving Repr

/-- Recorded differences in order. -/
structure DifferenceLog (α : Type u) where
  differences : List (Difference α)
  deriving Repr

namespace DifferenceLog

variable {α : Type u}

/-- The log without records. -/
def empty : DifferenceLog α := ⟨[]⟩

/-- The log with a further record. -/
def add (log : DifferenceLog α) (path : FieldPath) (first second : α) : DifferenceLog α :=
  ⟨log.differences ++ [⟨path, first, second⟩]⟩

/-- The number of records. -/
def size (log : DifferenceLog α) : Nat :=
  log.differences.length

/-- Whether nothing was recorded. -/
def isEmpty (log : DifferenceLog α) : Bool :=
  log.differences.isEmpty

/-- Whether something was recorded at or below a dotted subject. -/
def differentAt (log : DifferenceLog α) (subject : String) : Bool :=
  log.differences.any (fun difference => difference.path.startsWith subject)

@[simp]
theorem differences_add (log : DifferenceLog α) (path : FieldPath) (first second : α) :
    (log.add path first second).differences = log.differences ++ [⟨path, first, second⟩] := rfl

end DifferenceLog

end Reconcile
