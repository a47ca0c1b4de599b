import Reconcile.Text.LetterCase

/-!
# Field settings

What a configuration says about a single field.
-/

namespace Reconcile

/-- Where the value of a field comes from: a field of another resource. -/
structure ReferenceSettings where
  /-- The kind of the other resource, like `SecurityGroup`. -/
  resource : String
  /-- The service of the other resource, if another controller manages it. -/
  service : Option String
  /-- The location of the value in the other resource, like `Status.ID`. -/
  path : String
  /-- Whether the other resource need not be in its synced state. -/
  skipStateCheck : Bool
  deriving DecidableEq, Repr

/-- The package alias with the types of the other resource. -/
def ReferenceSettings.package (settings : ReferenceSettings) : String :=
  match settings.service with
  | some service => String.ofList ((Text.lower service).toList.filter (· ≠ '-')) ++ "apitypes"
  | none => "svcapitypes"

/-- The settings of a field. -/
structure FieldSettings where
  /-- The field identifies the resource. -/
  isPrimaryKey : Bool := false
  /-- The field or its reference field must be set. -/
  isRequired : Bool := false
  /-- Comparisons leave the field out. -/
  isCompareIgnored : Bool := false
  /-- The field takes its value from another resource. -/
  references : Option ReferenceSettings := none
  deriving DecidableEq, Inhabited, Repr

end Reconcile
