import Reconcile.Proofs.Resource.Registry

/-!
# One more ignored path

An entry that is added to the ignored paths of a resource changes nothing but what comparisons leave
out: the fields of the resource stay as they are (`Resource.ofDefinition_ignoring`).
-/

namespace Reconcile

/-- The settings of a resource with one more ignored path. -/
def ResourceSettings.ignoring (settings : ResourceSettings) (entry : String) : ResourceSettings :=
  { settings with ignoredPaths := settings.ignoredPaths ++ [entry] }

/-- Settings with one more ignored path of a resource. -/
def Settings.ignoring (settings : Settings) (resource entry : String) : Settings where
  resources := settings.resources.insert resource
    (((settings.resources.get? resource).getD {}).ignoring entry)

/-- The resource with one more ignored path. -/
def Resource.ignoring (resource : Resource) (entry : String) : Resource :=
  { resource with settings := resource.settings.ignoring entry }

/-- What fields are registered with if one more path is ignored. -/
def Registration.ignoring (registration : Registration) (entry : String) : Registration :=
  { registration with settings := registration.settings.ignoring entry }

namespace ResourceSettings

/-- The root of desired state at the front of an entry does not count. -/
theorem rootless_spec (path : String) : rootless ("Spec." ++ path) = path := by
  have length : "Spec.".length = 5 := rfl
  simp [rootless, Text.dropStart?, length]

theorem isCompareIgnored_ignoring (settings : ResourceSettings) (entry : String)
    (path : FieldPath) : (settings.ignoring entry).isCompareIgnored path =
      (settings.isCompareIgnored path || rootless entry == path.text) := by
  simp [isCompareIgnored, ignoring, field?, Bool.or_assoc]

end ResourceSettings

theorem Resource.isCompareIgnored_ignoring (resource : Resource) (path : String)
    (member : FieldPath) : (resource.ignoring ("Spec." ++ path)).isCompareIgnored member =
      (resource.isCompareIgnored member || path == member.text) := by
  have ignored := resource.settings.isCompareIgnored_ignoring ("Spec." ++ path) member
  rwa [ResourceSettings.rootless_spec] at ignored

namespace Registration

open Shape

theorem field_ignoring (registration : Registration) (entry : String) :
    (registration.ignoring entry).field = registration.field := rfl

theorem fieldsOf_ignoring (registration : Registration) (entry : String)
    (members : List (String × Shape)) : ∀ parent,
      (registration.ignoring entry).fieldsOf parent members =
        registration.fieldsOf parent members := by
  induction members using membersInduction with
  | nil =>
      intro parent
      rw [fieldsOf, fieldsOf]
  | cons member rest below ofRest =>
      intro parent
      rw [fieldsOf, fieldsOf, field_ignoring]
      simp only [fieldsBelow_eq, below, ofRest]

theorem fieldsOfRoot_ignoring (registration : Registration) (entry : String) :
    (registration.ignoring entry).fieldsOfRoot = registration.fieldsOfRoot := by
  funext resource root shape
  cases shape with
  | struct name members => simp only [fieldsOfRoot, fieldsOf_ignoring]
  | scalar name kind => rfl
  | sequence name element => rfl
  | mapping name key value => rfl

end Registration

namespace Resource

theorem ofDefinition_ignoring (definition : ResourceDefinition) (settings : Settings)
    (normalizer : Normalizer) (entry : String) :
    ofDefinition definition (settings.ignoring definition.name entry) normalizer =
      (ofDefinition definition settings normalizer).map
        (fun resource => resource.ignoring entry) := by
  have added : ((settings.ignoring definition.name entry).resources.get? definition.name).getD {} =
      ((settings.resources.get? definition.name).getD {}).ignoring entry := by
    simp [Settings.ignoring, OrderedMap.get?_insert]
  have sameFields : ∀ registered : ResourceSettings,
      ({ normalizer, settings := registered.ignoring entry,
         renames := OrderedMap.ofList (registered.ignoring entry).fieldRenames } :
          Registration).fieldsOfRoot =
        ({ normalizer, settings := registered,
           renames := OrderedMap.ofList registered.fieldRenames } : Registration).fieldsOfRoot :=
    fun registered => Registration.fieldsOfRoot_ignoring
      ⟨normalizer, registered, OrderedMap.ofList registered.fieldRenames⟩ entry
  unfold ofDefinition
  dsimp only
  rw [added, sameFields]
  generalize Registration.mk _ _ _ = registration
  cases registration.fieldsOfRoot definition.name .spec definition.spec with
  | error error => rfl
  | ok specFields =>
      cases definition.status with
      | none => rfl
      | some status =>
          simp only [bind, Except.bind]
          cases registration.fieldsOfRoot definition.name .status status with
          | error error => rfl
          | ok statusFields => rfl

end Resource

end Reconcile
