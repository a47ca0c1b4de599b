import Reconcile.Resource.Basic

/-!
# Identifiers

The fields that identify a resource to its interface. Fields that are set to be primary keys
come before all others; without any, a fixed list of names is tried in order.
-/

namespace Reconcile

/-- A member of an operation's shape that identifies the resource. -/
structure ShapeIdentifier where
  /-- The member in the shape. -/
  member : String
  /-- The member after the renames of the operation. -/
  name : String
  deriving DecidableEq, Inhabited, Repr

/-- An identifier with the member of a listing operation that takes many of it. -/
structure PluralIdentifier where
  /-- The identifier of the resource. -/
  resource : String
  /-- The member in the shape. -/
  member : String
  deriving DecidableEq, Inhabited, Repr

namespace Resource

/-- The names that identify a resource, in the order in which they are tried. -/
def identifierCandidates (resource : Resource) : List String :=
  let name := resource.names.exported
  ["Id", "Ids", "Name", "Names", name ++ "Name", name ++ "Names", name ++ "Id", name ++ "Ids"]

/-- The paths of the fields that are set to be primary keys, in ascending order. -/
def primaryKeys (resource : Resource) : List String :=
  Text.sortedBy id (((resource.specFields.values ++ resource.statusFields.values).filter
    Field.isPrimaryKey).map (fun field => field.path.text))

/-- The names of the fields that identify the resource. -/
def identifiers (resource : Resource) : List String :=
  if resource.primaryKeys.isEmpty then
    resource.identifierCandidates.filter (fun candidate =>
      resource.specFields.contains candidate || resource.statusFields.contains candidate)
  else resource.primaryKeys

/-- The members of an operation's shape with their names after the renames of its input. -/
def renamedMembers (resource : Resource) (shape : Shape) (operation : String) :
    List ShapeIdentifier :=
  let renames := (resource.settings.inputRenames? operation).getD ∅
  ((shape.members?.getD []).keys).map (fun member =>
    ⟨member, (renames.get? member).getD member⟩)

/-- The members of an operation's shape that identify the resource. -/
def shapeIdentifiers (resource : Resource) (shape : Shape) (operation : String) :
    List ShapeIdentifier :=
  let members := resource.renamedMembers shape operation
  resource.identifierCandidates.filterMap (fun candidate =>
    members.find? (fun member => member.name == candidate))

/-- The first identifier whose plural is a member of an operation's shape, in any letter case. -/
def pluralIdentifier? (resource : Resource) (shape : Shape) (operation : String) :
    Option PluralIdentifier :=
  let members := resource.renamedMembers shape operation
  resource.identifiers.findSome? (fun identifier =>
    (members.find? (fun member => Text.equalIgnoringCase member.name (identifier ++ "s"))).map
      (fun member => ⟨identifier, member.member⟩))

end Resource

end Reconcile
