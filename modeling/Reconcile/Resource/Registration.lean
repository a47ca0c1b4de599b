import Reconcile.Resource.Basic
import Reconcile.Settings.Basic

/-!
# Registration of fields

Joining a definition with settings. Every member that is reached from a root through
structures, through the elements of sequences and through the values of mappings becomes a
field; the members of a member come before it. Reference fields follow at the end of desired
state, in the order of the fields that they stand in for.
-/

namespace Reconcile

/-- What the registration of fields depends on. -/
structure Registration where
  normalizer : Normalizer
  settings : ResourceSettings
  /-- New names of outermost members. -/
  renames : OrderedMap String

namespace Registration

/-- The ends of a name that mark an identifier, in the order in which they are tried. -/
def identifierEndings : List String := [
  "id", "ids", "Id", "Ids", "ID", "IDs", "IDS", "Name", "Names", "NAME", "NAMEs", "NAMES",
  "Arn", "Arns", "ARN", "ARNs", "ARNS"]

/-- The singular of a plural name. -/
def singular (name : String) : String :=
  match Text.dropEnd? "ies" name with
  | some stem => stem ++ "y"
  | none => if (Text.dropEnd? "ss" name).isSome then name else (Text.dropEnd? "s" name).getD name

/-- A name without the first identifier ending that it has. -/
def referenceStem (name : String) : String :=
  (identifierEndings.findSome? (Text.dropEnd? · name)).getD name

/-- The names of the reference field of a member. -/
def referenceNames (registration : Registration) (names : Names) (shape : Shape)
    (path : FieldPath) : Except Resource.Error Names :=
  let stem := referenceStem names.wire
  if stem.isEmpty then .error (.emptyReferenceName path.text)
  else
    .ok (registration.normalizer
      (if shape.isSequence then singular stem ++ "Refs" else stem ++ "Ref"))

/-- The name of a member after renames, which apply to outermost members only. -/
def renamed (registration : Registration) (parent : FieldPath) (member : String) : String :=
  if parent.isEmpty then (registration.renames.get? member).getD member else member

/-- The field of a member. -/
def field (registration : Registration) (parent : FieldPath) (member : String) (shape : Shape) :
    Except Resource.Error Field := do
  let names := registration.normalizer (registration.renamed parent member)
  let path := parent.child names.exported
  let settings := registration.settings.field? path
  let reference ←
    if (settings.bind FieldSettings.references).isSome then
      some <$> registration.referenceNames names shape path
    else pure none
  return { names, path, shape, settings, reference, resolves := none }

mutual

/-- The fields below a value, in the order of registration. -/
def fieldsBelow (registration : Registration) (path : FieldPath) :
    Shape → Except Resource.Error (List Field)
  | .struct _ members => fieldsOf registration path members
  | .sequence _ (.struct _ members) => fieldsOf registration path members
  | .mapping _ _ (.struct _ members) => fieldsOf registration path members
  | _ => .ok []

/-- The fields of members and everything below them, in the order of registration. -/
def fieldsOf (registration : Registration) (parent : FieldPath) :
    List (String × Shape) → Except Resource.Error (List Field)
  | [] => .ok []
  | (member, shape) :: rest => do
    let field ← registration.field parent member shape
    let below ← fieldsBelow registration field.path shape
    let others ← fieldsOf registration parent rest
    return below ++ field :: others

end

/-- The fields below a root, which must be a structure. -/
def fieldsOfRoot (registration : Registration) (resource : String) (root : FieldRoot)
    (shape : Shape) : Except Resource.Error (OrderedMap Field) :=
  match shape with
  | .struct _ members => do
    let fields ← registration.fieldsOf .empty members
    return OrderedMap.ofList (fields.map Field.entry)
  | other => .error (.rootNotStructure resource root other.form)

end Registration

namespace Resource

/-- Fields with the reference fields of all of them. -/
def withReferenceFields (fields : OrderedMap Field) : OrderedMap Field :=
  fields.insertAll ((fields.values.filterMap Field.referenceField?).map Field.entry)

/-- Joins a definition with the settings of its resource. -/
def ofDefinition (definition : ResourceDefinition) (settings : Settings)
    (normalizer : Normalizer) : Except Error Resource := do
  let resourceSettings := (settings.resources.get? definition.name).getD {}
  let registration : Registration := {
    normalizer
    settings := resourceSettings
    renames := OrderedMap.ofList resourceSettings.fieldRenames
  }
  let specFields ← registration.fieldsOfRoot definition.name .spec definition.spec
  let statusFields ←
    match definition.status with
    | some status => registration.fieldsOfRoot definition.name .status status
    | none => pure ∅
  return {
    names := normalizer definition.name
    specFields := withReferenceFields specFields
    statusFields
    operations := definition.operations
    settings := resourceSettings
  }

end Resource

end Reconcile
