import Reconcile.Settings.Resource
import Reconcile.Text.Order

/-!
# Settings

The settings of all resources of a service, and the check that their renames speak of known
operations.
-/

namespace Reconcile

/-- Settings by the schema names of resources. -/
structure Settings where
  resources : OrderedMap ResourceSettings := ∅
  deriving Inhabited

namespace Settings

/-- A rename of members of an operation that is not known. -/
structure UnknownRename where
  resource : String
  operation : String
  /-- The known operations as messages list them. -/
  available : String
  deriving DecidableEq, Repr

/-- The wording of the error. -/
def UnknownRename.message (error : UnknownRename) : String :=
  "resources." ++ error.resource ++ ".renames.operations." ++ error.operation ++
    ": operation not found in model, available: " ++ error.available

/-- The number of operations that messages list. -/
def listedOperations : Nat := 10

/-- The texts in ascending order, each once. -/
def sortedDistinct (texts : List String) : List String :=
  (Text.sortedBy id texts).eraseReps

/-- Lists known operations: all of them, or the first ten with the total. -/
def availableText (known : List String) : String :=
  let names := sortedDistinct known
  if names.length ≤ listedOperations then ", ".intercalate names
  else
    ", ".intercalate (names.take listedOperations) ++
      ", ... (" ++ toString names.length ++ " total)"

/-- The renames of unknown operations, by resource name and then in order of declaration. -/
def unknownRenames (settings : Settings) (known : List String) : List UnknownRename :=
  let resources := Text.sortedBy Prod.fst settings.resources.entries
  resources.flatMap (fun (resource, resourceSettings) =>
    (resourceSettings.renames.keys.filter (fun operation => !known.contains operation)).map
      (fun operation => ⟨resource, operation, availableText known⟩))

end Settings

end Reconcile
