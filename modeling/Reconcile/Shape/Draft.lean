import Reconcile.Shape.Basic
import Reconcile.Text.Quoted

/-!
# Drafts of shapes

A shape as a document spells it: a word for its type and whatever parts are given. Checking a
draft turns it into a shape or finds its first defect. Only the parts that belong to the type
are checked.
-/

namespace Reconcile.Shape

/-- An unchecked shape. -/
inductive Draft where
  | mk (type : String) (name : Option String) (members : List (String × Draft))
    (member key value : Option Draft)
  deriving Inhabited, Repr

/-- A part that a list or a map must have. -/
inductive Part where
  | member
  | key
  | value
  deriving DecidableEq, Repr

/-- The name of a part. -/
def Part.name : Part → String
  | .member => "member"
  | .key => "key"
  | .value => "value"

/-- The word for the type that must have the part. -/
def Part.owner : Part → String
  | .member => "list"
  | .key | .value => "map"

/-- What keeps a draft from being a shape. -/
inductive Defect where
  /-- The word for the type is unknown. -/
  | unsupportedKind (kind : String)
  /-- The keys of a map are no scalars but of another form. -/
  | unsupportedKey (shape key : String)
  /-- A structure has no name. -/
  | missingStructureName
  /-- A list or map lacks a part. -/
  | missingPart (shape : String) (part : Part)
  deriving DecidableEq, Repr

/-- The wording of a defect. -/
def Defect.message : Defect → String
  | .unsupportedKind kind => "unsupported shape kind " ++ Text.quoted kind
  | .unsupportedKey shape key =>
    "unsupported key type " ++ Text.quoted key ++ " for map shape " ++ Text.quoted shape ++
      ", only string keys are supported"
  | .missingStructureName => "structure shapes must have a name"
  | .missingPart shape part =>
    part.owner ++ " shape " ++ Text.quoted shape ++ " is missing its " ++
      Text.quoted part.name ++ " shape"

namespace Draft

mutual

/--
Checks a draft. A structure needs a name, a list its member, a map its key and its value, and
the key must be a scalar. Any other type is a scalar word. A shape without a given name is
named after its parts.
-/
def check : Draft → Except Defect Shape
  | .mk "structure" name members _ _ _ =>
    match name with
    | none => .error .missingStructureName
    | some name => do return .struct name (← checkMembers members)
  | .mk "list" name _ member _ _ =>
    match member with
    | none => .error (.missingPart (name.getD "") .member)
    | some member => do
      let shape := sequenceOf (← check member)
      return shape.named (name.getD shape.name)
  | .mk "map" name _ _ key value =>
    match key, value with
    | none, _ => .error (.missingPart (name.getD "") .key)
    | some _, none => .error (.missingPart (name.getD "") .value)
    | some key, some value => do
      match ← check key with
      | .scalar _ kind =>
        let shape := mappingOf kind (← check value)
        return shape.named (name.getD shape.name)
      | other => .error (.unsupportedKey (name.getD "") other.form)
  | .mk word name _ _ _ _ =>
    match ScalarKind.ofWord? word with
    | none => .error (.unsupportedKind word)
    | some kind => .ok (.scalar (name.getD kind.title) kind)

/-- Checks the members of a structure in order. -/
def checkMembers : List (String × Draft) → Except Defect (List (String × Shape))
  | [] => .ok []
  | (name, draft) :: rest => do
    let shape ← check draft
    return (name, shape) :: (← checkMembers rest)

end

end Draft

end Reconcile.Shape
