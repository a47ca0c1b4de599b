import Reconcile.Names
import Reconcile.Settings.Resource
import Reconcile.Shape.Basic

/-!
# Fields

A field is a member of a resource at a known location. A field whose value is taken from
another resource has a second field next to it that names the other resource: its reference
field.
-/

namespace Reconcile

/-- The part of a resource that a field belongs to. -/
inductive FieldRoot where
  /-- Desired state. -/
  | spec
  /-- Observed state. -/
  | status
  deriving DecidableEq, Repr

namespace FieldRoot

/-- The member that holds the part. -/
def name : FieldRoot → String
  | .spec => "Spec"
  | .status => "Status"

/-- The part that a member holds. -/
def ofName? : String → Option FieldRoot
  | "Spec" => some .spec
  | "Status" => some .status
  | _ => none

@[simp]
theorem ofName?_name (root : FieldRoot) : ofName? root.name = some root := by
  cases root <;> rfl

end FieldRoot

/-- A member of a resource with its location and settings. -/
structure Field where
  names : Names
  /-- The location below the root, in exported names. -/
  path : FieldPath
  shape : Shape
  settings : Option FieldSettings
  /-- The names of the reference field, if the value is taken from another resource. -/
  reference : Option Names
  /-- For a reference field, the location of the field that it stands in for. -/
  resolves : Option FieldPath

namespace Field

/-- Whether this is a reference field. -/
def isReference (field : Field) : Bool :=
  field.resolves.isSome

/-- Where the value is taken from. -/
def references? (field : Field) : Option ReferenceSettings :=
  field.settings.bind FieldSettings.references

/-- Whether the field or its reference field must be set. -/
def isRequired (field : Field) : Bool :=
  field.settings.any FieldSettings.isRequired

/-- Whether the field identifies the resource. -/
def isPrimaryKey (field : Field) : Bool :=
  field.settings.any FieldSettings.isPrimaryKey

/-- The location of the reference field, next to this field. -/
def referencePath? (field : Field) : Option FieldPath :=
  field.reference.map (fun names => field.path.parent.child names.exported)

/-- The shape of the name of another resource. -/
def referenceShape : Shape :=
  .struct "AWSResourceReferenceWrapper" [
    ("From", .struct "AWSResourceReference" [
      ("Name", Shape.scalarOf .string),
      ("Namespace", Shape.scalarOf .string)])]

/-- The reference field of the field. A list of values is taken from a list of resources. -/
def referenceField? (field : Field) : Option Field := do
  let names ← field.reference
  let path ← field.referencePath?
  return {
    names
    path
    shape := if field.shape.isSequence then Shape.sequenceOf referenceShape else referenceShape
    settings := none
    reference := none
    resolves := some field.path
  }

/-- The field under its dotted path. -/
def entry (field : Field) : String × Field :=
  (field.path.text, field)

end Field

end Reconcile
