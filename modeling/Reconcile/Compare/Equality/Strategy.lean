import Reconcile.Compare.Strategy

/-!
# The strategy of equality

Equality stops at the first difference. It looks into collections one level: scalars are
compared in a loop, structures by the helper function of their shape.
-/

namespace Reconcile.Equality

/-- The statement that runs at a difference. -/
def action (_ : Site) : String :=
  "return false"

/-- The call of the helper of a shape. -/
def helperCall (shape : Shape) (site : Site) : List Check :=
  Check.guarded shape site [.unequal site (.helper shape)]

/-- The checks of the elements of a sequence. -/
def elementChecks (site : Site) (element : Shape) (checks : Site → List Check) : List Check :=
  let inner := site.index "i"
  match element with
  | .scalar .. => [.eachIndex site (Check.guarded element inner (checks inner))]
  | .struct .. => [.eachIndex site (helperCall element inner)]
  | element => [.todo ("equality of " ++ element.form ++ " elements")]

/-- The checks of the values of a mapping. -/
def valueChecks (site : Site) (value : Shape) (checks : Site → List Check) : List Check :=
  let inner := site.held "av" "bv"
  match value with
  | .scalar .. => [.eachEntry site (Check.guarded value inner (checks inner))]
  | .struct .. => [.eachEntry site (helperCall value inner)]
  | value => [.todo ("equality of " ++ value.form ++ " values")]

/-- The strategy that looks into collections, with the members that settings make special. -/
def strategyWith (normalizer : Normalizer) (isIgnored isTagField : FieldPath → Bool) :
    Strategy where
  normalizer
  isIgnored
  isTagField
  sequence site element checks := .unequal site .length :: elementChecks site element checks
  mapping site value checks := .unequal site .length :: .keys site :: valueChecks site value checks

/-- The strategy without settings, as used for standalone shapes and helpers. -/
def strategy (normalizer : Normalizer) : Strategy :=
  strategyWith normalizer (fun _ => false) (fun _ => false)

/-- The strategy under the settings of a resource. -/
def resourceStrategy (resource : Resource) (normalizer : Normalizer)
    (tagPath : Option FieldPath) : Strategy :=
  strategyWith normalizer resource.isCompareIgnored (fun path => tagPath == some path)

end Reconcile.Equality
