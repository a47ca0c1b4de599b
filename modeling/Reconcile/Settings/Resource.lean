import Reconcile.Document.Value
import Reconcile.FieldPath
import Reconcile.Settings.Field

/-!
# Resource settings

What a configuration says about a resource: settings of its fields, paths left out of
comparisons, conditions of the synced state, the layout of its tags and renames of operation
members.
-/

namespace Reconcile

/--
A field and the values of which it must hold one. Either part may be missing here, so that an
incomplete condition is reported with its position when code is asked for.
-/
structure SyncedCondition where
  path : Option String := none
  values : Option (List Value) := none
  deriving Inhabited, Repr

/-- Where a resource keeps its tags. -/
structure TagSettings where
  /-- The resource has no tags, or they are not handled here. -/
  ignore : Bool := false
  /-- The location of the tags, if it is given. -/
  givenPath : Option String := none
  /-- The member for the key of a tag, if it is given. -/
  givenKeyName : Option String := none
  /-- The member for the value of a tag, if it is given. -/
  givenValueName : Option String := none
  deriving DecidableEq, Inhabited, Repr

namespace TagSettings

/-- The location of the tags. -/
def path (settings : TagSettings) : String :=
  settings.givenPath.getD "Tags"

/-- The member for the key of a tag. -/
def keyName (settings : TagSettings) : String :=
  settings.givenKeyName.getD "Key"

/-- The member for the value of a tag. -/
def valueName (settings : TagSettings) : String :=
  settings.givenValueName.getD "Value"

end TagSettings

/-- New names for the members of the shapes of one operation. -/
structure OperationRenames where
  input : OrderedMap String := ∅
  output : OrderedMap String := ∅
  deriving Inhabited

/-- The settings of a resource. -/
structure ResourceSettings where
  /-- Settings of fields by path. -/
  fields : OrderedMap FieldSettings := ∅
  /-- Paths that comparisons leave out, each with or without the root of desired state. -/
  ignoredPaths : List String := []
  /-- Conditions that must all hold in the synced state. -/
  syncedConditions : List SyncedCondition := []
  /-- The layout of the tags. -/
  tags : TagSettings := {}
  /-- Renames by operation. -/
  renames : OrderedMap OperationRenames := ∅
  deriving Inhabited

namespace ResourceSettings

/-- The settings of the field at a path: under exactly this path, or else ignoring case. -/
def field? (settings : ResourceSettings) (path : FieldPath) : Option FieldSettings :=
  settings.fields.closest? path.text

/-- An entry of the ignored paths without the root of desired state. -/
def rootless (entry : String) : String :=
  (Text.dropStart? "Spec." entry).getD entry

/-- Whether comparisons leave out the field, by its own settings or by the ignored paths. -/
def isCompareIgnored (settings : ResourceSettings) (path : FieldPath) : Bool :=
  (settings.field? path).any FieldSettings.isCompareIgnored ||
    settings.ignoredPaths.any (fun entry => rootless entry == path.text)

/-- All renames of all operations in order, input before output. -/
def fieldRenames (settings : ResourceSettings) : Entries String :=
  settings.renames.values.flatMap (fun renames => renames.input.entries ++ renames.output.entries)

/-- The renames of the input of an operation. -/
def inputRenames? (settings : ResourceSettings) (operation : String) :
    Option (OrderedMap String) :=
  (settings.renames.get? operation).map OperationRenames.input

end ResourceSettings

end Reconcile
