import Reconcile.Code.Access
import Reconcile.Resource.Basic

/-!
# References

A field that takes its value from another resource, with its reference field and the fields
that contain both. Containing structures are entered behind a check of presence, containing
sequences in a loop; references inside mappings are refused.
-/

namespace Reconcile

/-- What keeps the code of references from being written. -/
inductive ReferenceError where
  /-- A field is inside a mapping. -/
  | withinMapping (path : FieldPath)
  /-- A field is inside a scalar. -/
  | withinScalar (path : FieldPath)
  /-- A containing field does not exist. -/
  | unknownField (path resource : String)
  /-- The location of the value in the other resource cannot be read. -/
  | unreadablePath (path : String) (error : FieldPath.ParseError)
  /-- The location of the value in the other resource names no field below its root. -/
  | shortPath (path : String)
  deriving DecidableEq, Repr

/-- The wording of an error. -/
def ReferenceError.message : ReferenceError → String
  | .withinMapping path =>
    "reference field " ++ Text.quoted path.text ++ " cannot be nested within a map"
  | .withinScalar path =>
    "malformed field path " ++ Text.quoted path.text ++
      ": reference fields cannot be nested in scalars"
  | .unknownField path resource =>
    "field " ++ Text.quoted path ++ " does not exist on resource " ++ Text.quoted resource
  | .unreadablePath path _ => "failed to parse field path " ++ Text.quoted path
  | .shortPath path =>
    "malformed field path " ++ Text.quoted path ++ ": expected a root and at least one field"

/-- A field that takes its value from another resource. -/
structure Reference where
  field : Field
  settings : ReferenceSettings
  /-- The exported name of the reference field. -/
  name : String
  /-- The location of the reference field. -/
  path : FieldPath
  /-- The fields that contain the reference field, outermost first. -/
  parents : List Field

/-- What opens a block around the code of a reference. -/
inductive Opening where
  /-- A structure that must be present. -/
  | present (access : Access)
  /-- A sequence whose elements are gone through. -/
  | each (index iterator : String) (access : Access)
  deriving DecidableEq, Inhabited, Repr

/-- The header of the block. -/
def Opening.header : Opening → String
  | .present access => access.ifPresentHeader
  | .each index iterator access =>
    "for " ++ index ++ ", " ++ iterator ++ " := range " ++ access.text

namespace Reference

/-- The locations of the fields that contain the field at a path, outermost first. -/
def containing (path : FieldPath) : List FieldPath :=
  (List.range (path.length - 1)).map (fun depth => ⟨path.segments.take (depth + 1)⟩)

/-- The field at a location that contains a field; it must be a structure or a sequence. -/
def parent (resource : Resource) (field : Field) (path : FieldPath) :
    Except ReferenceError Field :=
  match resource.field? .spec path.text with
  | none => .error (.unknownField path.text resource.names.wire)
  | some parent =>
    match parent.shape with
    | .struct .. | .sequence .. => .ok parent
    | .mapping .. => .error (.withinMapping field.path)
    | .scalar .. => .error (.withinScalar field.path)

/-- The reference of a field, if it has one. -/
def ofField (resource : Resource) (field : Field) : Except ReferenceError (Option Reference) :=
  match field.references?, field.reference, field.referencePath? with
  | some settings, some names, some path => do
    let parents ← (containing path).mapM (parent resource field)
    return some { field, settings, name := names.exported, path, parents }
  | _, _, _ => .ok none

/-- The references of a resource in the order of the paths of their fields. -/
def all (resource : Resource) : Except ReferenceError (List Reference) := do
  let references ← resource.referencingFields.mapM (ofField resource)
  return references.filterMap id

/-- Whether the field holds a list of values. -/
def isList (reference : Reference) : Bool :=
  reference.field.shape.isSequence

/-- The number of sequences around the field. -/
def listDepth (reference : Reference) : Nat :=
  (reference.parents.filter (fun parent => parent.shape.isSequence)).length

/-- The variable for an element of the sequence at a depth. -/
def iterator (depth : Nat) : String :=
  s!"f{depth}iter"

/-- The variable for a position in the sequence at a depth. -/
def position (depth : Nat) : String :=
  s!"f{depth}idx"

/--
The openings of blocks around the members of the innermost parent, and the expression that
reaches that parent inside them. Positions are named only if `indexed` asks for it.
-/
def openings (indexed : Bool) (start : Access) (depth : Nat) :
    List Field → List Opening × Access
  | [] => ([], start)
  | parent :: rest =>
    let access := start.member parent.names.exported
    if parent.shape.isSequence then
      let (inner, last) := openings indexed (.root (iterator depth)) (depth + 1) rest
      (.each (if indexed then position depth else "_") (iterator depth) access :: inner, last)
    else
      let (inner, last) := openings indexed access depth rest
      (.present access :: inner, last)

/-- The expression that reaches the innermost parent through positions of the sequences. -/
def indexedAccess (start : Access) (depth : Nat) : List Field → Access
  | [] => start
  | parent :: rest =>
    let access := start.member parent.names.exported
    if parent.shape.isSequence then
      indexedAccess (access.index (position depth)) (depth + 1) rest
    else indexedAccess access depth rest

/-- The desired state of an object. -/
def desired (object : String) : Access :=
  .member (.root object) FieldRoot.spec.name

/-- The blocks around the code of a reference in an object. -/
def opened (reference : Reference) (object : String) (indexed : Bool) : List Opening × Access :=
  openings indexed (desired object) 0 reference.parents

/-- The expression that reaches the field through positions of the sequences around it. -/
def concrete (reference : Reference) (object : String) : Access :=
  (indexedAccess (desired object) 0 reference.parents).member reference.field.names.exported

/-- Code inside the blocks of openings. -/
def inside (openings : List Opening) (body : List Code) : List Code :=
  Code.nest (openings.map Opening.header) body

end Reference

namespace ReferenceSettings

/--
A condition that holds if some step to the value in the other resource is absent. The
location must name a field below its root.
-/
def absenceCheck (settings : ReferenceSettings) (object : String) :
    Except ReferenceError String := do
  let path ← (FieldPath.parse settings.path).mapError (.unreadablePath settings.path)
  match path.splitRoot? with
  | some (root, below) => return Access.absenceChain (.member (.root object) root) below
  | none => throw (.shortPath settings.path)

end ReferenceSettings

end Reconcile
