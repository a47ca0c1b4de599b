import Reconcile.Entries
import Reconcile.Shape.ScalarKind

/-!
# Shapes

A shape is a node in the schema of a resource: a scalar, a structure with named members, a
sequence or a mapping. Every shape has a name; structures carry the name of their model, the
others by default a name derived from their parts.
-/

namespace Reconcile

/-- The schema of a value. -/
inductive Shape where
  /-- A value without parts. -/
  | scalar (name : String) (kind : ScalarKind)
  /-- Named members in declaration order. -/
  | struct (name : String) (members : List (String × Shape))
  /-- A list of elements of one shape. -/
  | sequence (name : String) (element : Shape)
  /-- Values of one shape under scalar keys. -/
  | mapping (name : String) (key : ScalarKind) (value : Shape)
  deriving Inhabited, Repr

namespace Shape

/-- The name of the shape. -/
def name : Shape → String
  | .scalar name _ => name
  | .struct name _ => name
  | .sequence name _ => name
  | .mapping name _ _ => name

/-- The shape under another name. -/
def named (shape : Shape) (name : String) : Shape :=
  match shape with
  | .scalar _ kind => .scalar name kind
  | .struct _ members => .struct name members
  | .sequence _ element => .sequence name element
  | .mapping _ key value => .mapping name key value

/-- A scalar named after its kind. -/
def scalarOf (kind : ScalarKind) : Shape :=
  .scalar kind.title kind

/-- A sequence named after its elements. -/
def sequenceOf (element : Shape) : Shape :=
  .sequence (element.name ++ "List") element

/-- A mapping named after its values. -/
def mappingOf (key : ScalarKind) (value : Shape) : Shape :=
  .mapping (value.name ++ "Map") key value

/-- The word for the form of the shape. -/
def form : Shape → String
  | .scalar .. => "scalar"
  | .struct .. => "structure"
  | .sequence .. => "sequence"
  | .mapping .. => "mapping"

/-- Whether the shape is a sequence. -/
def isSequence : Shape → Bool
  | .sequence .. => true
  | _ => false

/-- The members of a structure. -/
def members? : Shape → Option (Entries Shape)
  | .struct _ members => some members
  | _ => none

/-- A member of a structure with its declared name: exactly this name, or else ignoring case. -/
def member? (shape : Shape) (name : String) : Option (String × Shape) :=
  shape.members?.bind (·.closest? name)

/--
Whether a value of the shape can be absent. Sequences and blobs write absence as length
zero, so they are compared by length instead.
-/
def isNullable : Shape → Bool
  | .sequence .. => false
  | .scalar _ .blob => false
  | _ => true

/-- The type of a field of the shape in emitted code. -/
def goType : Shape → String
  | .scalar _ kind => kind.goType
  | .struct name _ => "*svcapitypes." ++ name
  | .sequence _ element => "[]" ++ element.goType
  | .mapping _ key value => "map[" ++ key.goElementType ++ "]" ++ value.goType

/-- The type without its outermost pointer; a structure goes by its bare name. -/
def goElementType : Shape → String
  | .scalar _ kind => kind.goElementType
  | .struct name _ => name
  | shape => shape.goType

@[simp]
theorem name_named (shape : Shape) (name : String) : (shape.named name).name = name := by
  cases shape <;> rfl

@[simp]
theorem name_scalarOf (kind : ScalarKind) : (scalarOf kind).name = kind.title := rfl

@[simp]
theorem name_sequenceOf (element : Shape) :
    (sequenceOf element).name = element.name ++ "List" := rfl

@[simp]
theorem name_mappingOf (key : ScalarKind) (value : Shape) :
    (mappingOf key value).name = value.name ++ "Map" := rfl

end Shape

end Reconcile
