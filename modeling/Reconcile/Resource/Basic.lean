import Reconcile.Resource.Definition
import Reconcile.Resource.Field
import Reconcile.Text.Order

/-!
# Resources

A resource holds all its fields, nested ones included, under their dotted paths, together
with the settings that apply to it.
-/

namespace Reconcile

/-- A resource whose definition has been joined with its settings. -/
structure Resource where
  names : Names
  /-- The fields of desired state. -/
  specFields : OrderedMap Field
  /-- The fields of observed state. -/
  statusFields : OrderedMap Field
  operations : OrderedMap Operation
  settings : ResourceSettings

namespace Resource

/-- What keeps a definition from becoming a resource, or a resource from having its tags. -/
inductive Error where
  /-- Desired or observed state is no structure. -/
  | rootNotStructure (resource : String) (root : FieldRoot) (form : String)
  /-- Nothing is left of a field name without its suffix. -/
  | emptyReferenceName (path : String)
  /-- The tags shall be in a field that does not exist. -/
  | unknownTagField (resource path : String)
  deriving DecidableEq, Repr

/-- The wording of an error. -/
def Error.message : Error → String
  | .rootNotStructure resource root form =>
    "the " ++ root.name ++ " shape of resource " ++ Text.quoted resource ++
      " must be a structure, got " ++ form
  | .emptyReferenceName path =>
    "the reference field name for " ++ Text.quoted path ++
      " cannot be derived from an identifier suffix alone"
  | .unknownTagField resource path =>
    "tag field " ++ Text.quoted path ++ " of resource " ++ Text.quoted resource ++
      " does not exist"

/-- The fields of a part of the resource. -/
def fields (resource : Resource) : FieldRoot → OrderedMap Field
  | .spec => resource.specFields
  | .status => resource.statusFields

/-- The field at a dotted path: exactly this path, or else ignoring case. -/
def field? (resource : Resource) (root : FieldRoot) (path : String) : Option Field :=
  (resource.fields root).closest? path

/-- The field at a dotted path in desired state, or else in observed state. -/
def anyField? (resource : Resource) (path : String) : Option Field :=
  (resource.field? .spec path).or (resource.field? .status path)

/-- The outermost fields of desired state in the order of their exported names. -/
def topLevelFields (resource : Resource) : List Field :=
  Text.sortedBy (fun field => field.names.exported)
    (resource.specFields.values.filter (fun field => field.path.length == 1))

/-- The fields of desired state whose values are taken from other resources, in path order. -/
def referencingFields (resource : Resource) : List Field :=
  (Text.sortedBy Prod.fst
    (resource.specFields.entries.filter (fun entry => entry.2.references?.isSome))).map Prod.snd

/-- Whether comparisons leave out the field at a path. -/
def isCompareIgnored (resource : Resource) (path : FieldPath) : Bool :=
  resource.settings.isCompareIgnored path

/--
The field that holds the tags. There is none if tags are ignored or if no location is given
and the default one is absent; a given location must exist.
-/
def tagField (resource : Resource) : Except Error (Option Field) :=
  let tags := resource.settings.tags
  if tags.ignore then .ok none
  else
    match resource.field? .spec tags.path with
    | some field => .ok (some field)
    | none =>
      if tags.givenPath.isNone then .ok none
      else .error (.unknownTagField resource.names.wire tags.path)

end Resource

end Reconcile
