import Reconcile.Settings.Basic

/-!
# Settings in documents

The fields of a configuration document. Everything in it is optional but the resource and the
path of a reference.
-/

namespace Reconcile

/-- The fields of reference settings that were found so far. -/
structure ReferenceSettings.Fields where
  resource : Option String := none
  service : Option String := none
  path : Option String := none
  skipStateCheck : Bool := false

/-- The settings of the fields. The resource and the path must be given. -/
def ReferenceSettings.Fields.finish (fields : ReferenceSettings.Fields) :
    Except Document.Defect ReferenceSettings := do
  let resource ← Document.require "resource" fields.resource
  let path ← Document.require "path" fields.path
  return { resource, path, service := fields.service, skipStateCheck := fields.skipStateCheck }

/-- Decodes reference settings. -/
def ReferenceSettings.ofDocument : Document.Decoder ReferenceSettings := fun document => do
  let fields ← document.record { : ReferenceSettings.Fields } fun
    | "resource" => some fun fields value => do
      return { fields with resource := some (← value.asText) }
    | "service_name" => some fun fields value => do
      return { fields with service := ← Document.optional Document.asText value }
    | "path" => some fun fields value => do
      return { fields with path := some (← value.asText) }
    | "skip_resource_state_validations" => some fun fields value => do
      return { fields with skipStateCheck := ← value.asBoolean }
    | _ => none
  fields.finish

/-- Decodes the part of field settings that speaks of comparisons. -/
def FieldSettings.compareOfDocument : Document.Decoder Bool :=
  Document.record false fun
    | "is_ignored" => some fun _ value => value.asBoolean
    | _ => none

/-- Decodes field settings. -/
def FieldSettings.ofDocument : Document.Decoder FieldSettings :=
  Document.record {} fun
    | "is_primary_key" => some fun settings value => do
      return { settings with isPrimaryKey := ← value.asBoolean }
    | "is_required" => some fun settings value => do
      return { settings with isRequired := ← value.asBoolean }
    | "compare" => some fun settings value => do
      let ignored ← Document.optional FieldSettings.compareOfDocument value
      return { settings with isCompareIgnored := ignored.getD false }
    | "references" => some fun settings value => do
      return { settings with references := ← Document.optional ReferenceSettings.ofDocument value }
    | _ => none

/-- Decodes a synced condition. -/
def SyncedCondition.ofDocument : Document.Decoder SyncedCondition :=
  Document.record {} fun
    | "path" => some fun condition value => do
      return { condition with path := ← Document.optional Document.asText value }
    | "in" => some fun condition value => do
      return { condition with
        values := ← Document.optional (Document.listOf Value.ofDocument) value }
    | _ => none

/-- Decodes tag settings. -/
def TagSettings.ofDocument : Document.Decoder TagSettings :=
  Document.record {} fun
    | "ignore" => some fun settings value => do
      return { settings with ignore := ← value.asBoolean }
    | "path" => some fun settings value => do
      return { settings with givenPath := ← Document.optional Document.asText value }
    | "key_name" => some fun settings value => do
      return { settings with givenKeyName := ← Document.optional Document.asText value }
    | "value_name" => some fun settings value => do
      return { settings with givenValueName := ← Document.optional Document.asText value }
    | _ => none

/-- Decodes the renames of an operation. -/
def OperationRenames.ofDocument : Document.Decoder OperationRenames :=
  Document.record {} fun
    | "input_fields" => some fun renames value => do
      return { renames with input := ← Document.mapOf Document.asText value }
    | "output_fields" => some fun renames value => do
      return { renames with output := ← Document.mapOf Document.asText value }
    | _ => none

namespace ResourceSettings

/-- Decodes the ignored paths. -/
def ignoredOfDocument : Document.Decoder (List String) :=
  Document.record [] fun
    | "ignore" => some fun _ value => Document.listOf Document.asText value
    | _ => none

/-- Decodes the synced conditions. -/
def syncedOfDocument : Document.Decoder (List SyncedCondition) :=
  Document.record [] fun
    | "when" => some fun _ value => Document.listOf SyncedCondition.ofDocument value
    | _ => none

/-- Decodes the renames by operation. -/
def renamesOfDocument : Document.Decoder (OrderedMap OperationRenames) :=
  Document.record ∅ fun
    | "operations" => some fun _ value => Document.mapOf OperationRenames.ofDocument value
    | _ => none

/-- Decodes resource settings. -/
def ofDocument : Document.Decoder ResourceSettings :=
  Document.record {} fun
    | "fields" => some fun settings value => do
      return { settings with fields := ← Document.mapOf FieldSettings.ofDocument value }
    | "compare" => some fun settings value => do
      return { settings with ignoredPaths := ← ignoredOfDocument value }
    | "synced" => some fun settings value => do
      return { settings with syncedConditions := ← syncedOfDocument value }
    | "tags" => some fun settings value => do
      return { settings with tags := ← TagSettings.ofDocument value }
    | "renames" => some fun settings value => do
      return { settings with renames := ← renamesOfDocument value }
    | _ => none

end ResourceSettings

namespace Settings

/-- Decodes settings. -/
def ofDocument : Document.Decoder Settings :=
  Document.record {} fun
    | "resources" => some fun settings value => do
      return { settings with resources := ← Document.mapOf ResourceSettings.ofDocument value }
    | _ => none

/-- What keeps settings from being loaded. -/
inductive LoadError where
  /-- The file cannot be read. -/
  | unreadable (path : String)
  /-- The text of the file has a defect. -/
  | invalid (defect : Document.Defect)
  deriving DecidableEq, Repr

/-- The wording of a load error. -/
def LoadError.message : LoadError → String
  | .unreadable path => "failed to read generator config from " ++ Text.quotedLocation path
  | .invalid _ => "failed to parse generator config"

/-- Reads settings from the text of a document. A blank text sets nothing. -/
def read (text : String) : Except LoadError Settings :=
  (Document.decode ofDocument text).mapError .invalid

/-- Loads settings from a file, given what could be read from it. -/
def load (path : String) (content : Option String) : Except LoadError Settings :=
  match content with
  | none => .error (.unreadable path)
  | some text => read text

end Settings

end Reconcile
