import Reconcile.Compare.Strategy

/-!
# Difference code

Code that records every difference between the desired states of two instances under the path
of the field. Elements and values of collections are not looked into: the collection is
recorded as a whole.
-/

namespace Reconcile.Delta

/-- The statement that records a difference. -/
def action (site : Site) : String :=
  "delta.Add(\"" ++ FieldRoot.spec.name ++ "." ++ site.path.text ++ "\", " ++ site.first.text ++
    ", " ++ site.second.text ++ ")"

/-- The checks of a sequence with elements. -/
def sequenceChecks (site : Site) : Shape → List Check
  | .scalar _ .string => [.unequal site .textList]
  | .scalar .. => [.unequal site .whole]
  | .struct .. => [.unequal site .whole]
  | element => [.todo ("delta of " ++ element.form ++ " elements")]

/-- The checks of a mapping with entries. -/
def mappingChecks (site : Site) : Shape → List Check
  | .scalar _ .string => [.unequal site .textMap]
  | _ => [.unequal site .whole]

/-- The strategy that records collections as a whole. -/
def strategy (resource : Resource) (normalizer : Normalizer) (tagPath : Option FieldPath) :
    Strategy where
  normalizer
  isIgnored := resource.isCompareIgnored
  isTagField path := tagPath == some path
  sequence site element _ := [.sized site (sequenceChecks site element)]
  mapping site value _ := [.sized site (mappingChecks site value)]

/-- The checks of the desired state of a resource. -/
def checks (resource : Resource) (normalizer : Normalizer) (first second : String) :
    Except CompareError (List Check) := do
  let tagField ← resource.tagField.mapError .tagField
  return (strategy resource normalizer (tagField.map Field.path)).resource resource first second

/-- The code that records the differences between two instances of a resource. -/
def compareResource (resource : Resource) (normalizer : Normalizer) (first second : String)
    (level : Nat) : Except CompareError String := do
  let checks ← checks resource normalizer first second
  let codes ← Check.emit action checks
  return Code.renderBehindBlank codes level

end Reconcile.Delta
