import Reconcile.Code.Access
import Reconcile.Resource.Basic

/-!
# Resolved conditions

A synced condition names a field and the values of which it must hold one. It is resolved
against the fields of a resource: every member on the way must be a structure and the last
one a scalar whose kind the values have.
-/

namespace Reconcile

/-- What is wrong with a synced condition. -/
inductive SyncedError where
  /-- No path is given to the condition at this index. -/
  | missingPath (index : Nat)
  /-- No values are given. -/
  | missingValues (path : String)
  /-- The path cannot be read. -/
  | unreadablePath (path : String) (error : FieldPath.ParseError)
  /-- The path names no field below its root. -/
  | shortPath (path : String)
  /-- The path starts with neither root. -/
  | unknownRoot (path : String)
  /-- A member on the way does not exist. -/
  | unknownField (path : String)
  /-- A member on the way is no structure, or the last one no scalar. -/
  | unsupportedShape (path form : String)
  /-- Values of this kind cannot be written. -/
  | unsupportedKind (path : String) (kind : ScalarKind)
  /-- A value is not of the kind of the field. -/
  | invalidValue (path value : String) (kind : ScalarKind)
  deriving DecidableEq, Repr

/-- The wording of an error. -/
def SyncedError.message : SyncedError → String
  | .missingPath index => s!"synced condition #{index} is missing its field path"
  | .missingValues path =>
    "synced condition " ++ Text.quoted path ++ " is missing its accepted values"
  | .unreadablePath path _ => "failed to parse field path " ++ Text.quoted path
  | .shortPath path =>
    "malformed field path " ++ Text.quoted path ++ ": expected a root and at least one field"
  | .unknownRoot path =>
    "malformed field path " ++ Text.quoted path ++
      ": expected the path to start with Spec or Status"
  | .unknownField path =>
    "field " ++ Text.quoted path ++ " of synced condition does not exist"
  | .unsupportedShape path form =>
    "synced condition " ++ Text.quoted path ++ " walks through a " ++ form ++
      " shape, only structures and scalars are supported"
  | .unsupportedKind path kind =>
    "synced condition " ++ Text.quoted path ++ " cannot render accepted values for " ++
      kind.name ++ " fields"
  | .invalidValue path value kind =>
    "synced value " ++ Text.quoted value ++ " of condition " ++ Text.quoted path ++
      " is not a valid " ++ kind.name

/-- A kind of scalar whose accepted values can be written. -/
inductive AcceptedKind where
  | string
  | integer
  | boolean
  deriving DecidableEq, Repr

namespace AcceptedKind

/-- The kind of scalar. -/
def toScalarKind : AcceptedKind → ScalarKind
  | .string => .string
  | .integer => .integer
  | .boolean => .boolean

/-- The kind of accepted values for a kind of scalar. -/
def ofScalarKind? : ScalarKind → Option AcceptedKind
  | .string => some .string
  | .integer => some .integer
  | .boolean => some .boolean
  | _ => none

/-- A value of the kind as a literal. -/
def literal? : AcceptedKind → Value → Option String
  | .string, .text value => some (Text.literal value)
  | .integer, .number value => value.signedWord?.map toString
  | .boolean, .boolean value => some (toString value)
  | _, _ => none

/-- The test that the value reached by an expression is one of those in a variable. -/
def membership (kind : AcceptedKind) (access : Access) (name : String) : String :=
  match kind with
  | .string => "ackutil.InStrings(*" ++ access.text ++ ", " ++ name ++ ")"
  | _ => "slices.Contains(" ++ name ++ ", *" ++ access.text ++ ")"

end AcceptedKind

/-- A condition whose field was found. -/
structure ResolvedCondition where
  root : FieldRoot
  /-- The structures on the way, outermost first. -/
  parents : List Field
  /-- The scalar field. -/
  target : Field
  kind : AcceptedKind
  /-- The accepted values as literals. -/
  literals : List String

namespace ResolvedCondition

/-- The fields on the way and the scalar field. -/
def chain (condition : ResolvedCondition) : List Field :=
  condition.parents ++ [condition.target]

/--
Walks along segments: the structures on the way, the scalar at the end and its kind. `text`
is the path for messages, `behind` what was walked already.
-/
def walk (resource : Resource) (root : FieldRoot) (text : String) (behind : FieldPath) :
    List String → Except SyncedError (List Field × Field × ScalarKind)
  | [] => .error (.unknownField text)
  | segment :: ahead =>
    let here := behind.child segment
    match resource.field? root here.text with
    | none => .error (.unknownField text)
    | some field =>
      match field.shape, ahead with
      | .scalar _ kind, [] => .ok ([], field, kind)
      | .struct .., _ :: _ => do
        let (parents, target, kind) ← walk resource root text here ahead
        return (field :: parents, target, kind)
      | shape, _ => .error (.unsupportedShape text shape.form)

/-- The literals of accepted values. -/
def writeLiterals (path : String) (kind : AcceptedKind) (values : List Value) :
    Except SyncedError (List String) :=
  values.mapM (fun value =>
    match kind.literal? value with
    | some literal => .ok literal
    | none => .error (.invalidValue path value.describe kind.toScalarKind))

/-- A text that is given and not empty. -/
def nonEmptyText? (text : Option String) : Option String :=
  text.filter (fun text => !text.isEmpty)

/-- Values that are given, at least one. -/
def nonEmptyValues? (values : Option (List Value)) : Option (List Value) :=
  values.filter (fun values => !values.isEmpty)

/-- A value, or else an error. -/
def orError {α : Type} (error : SyncedError) : Option α → Except SyncedError α
  | some value => .ok value
  | none => .error error

/-- Resolves the condition at an index. -/
def resolve (resource : Resource) (index : Nat) (condition : SyncedCondition) :
    Except SyncedError ResolvedCondition := do
  let text ← orError (.missingPath index) (nonEmptyText? condition.path)
  let values ← orError (.missingValues text) (nonEmptyValues? condition.values)
  let path ← (FieldPath.parse text).mapError (.unreadablePath text)
  let (rootName, below) ← orError (.shortPath text) path.splitRoot?
  let root ← orError (.unknownRoot text) (FieldRoot.ofName? rootName)
  let (parents, target, scalarKind) ← walk resource root text .empty below
  let kind ← orError (.unsupportedKind text scalarKind) (AcceptedKind.ofScalarKind? scalarKind)
  let literals ← writeLiterals text kind values
  return { root, parents, target, kind, literals }

end ResolvedCondition

end Reconcile
