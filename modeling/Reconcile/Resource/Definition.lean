import Reconcile.Shape.Document

/-!
# Resource definitions

The schema of a resource: the structures of its desired and of its observed state and the
shapes that its operations take and give.
-/

namespace Reconcile

/-- An operation of the interface of a resource. -/
structure Operation where
  input : Option Shape := none
  output : Option Shape := none
  deriving Inhabited

/-- The schema of a resource. -/
structure ResourceDefinition where
  /-- The schema name of the resource. -/
  name : String
  /-- The desired state. -/
  spec : Shape
  /-- The observed state, if the resource has one. -/
  status : Option Shape
  /-- The operations by name. -/
  operations : OrderedMap Operation

/-- Decodes an operation. -/
def Operation.ofDocument : Document.Decoder Operation :=
  Document.record {} fun
    | "input" => some fun operation value => do
      return { operation with input := ← Document.optional Shape.ofDocument value }
    | "output" => some fun operation value => do
      return { operation with output := ← Document.optional Shape.ofDocument value }
    | _ => none

namespace ResourceDefinition

/-- The fields of a definition that were found so far. -/
structure Fields where
  name : Option String := none
  spec : Option Shape := none
  status : Option Shape := none
  operations : OrderedMap Operation := ∅

/-- The definition of the fields. The name and the desired state must be given. -/
def Fields.finish (fields : Fields) : Except Document.Defect ResourceDefinition := do
  let name ← Document.require "name" fields.name
  let spec ← Document.require "spec" fields.spec
  return { name, spec, status := fields.status, operations := fields.operations }

/-- Decodes a definition. -/
def ofDocument : Document.Decoder ResourceDefinition := fun document => do
  let fields ← document.record { : Fields } fun
    | "name" => some fun fields value => do
      return { fields with name := some (← value.asText) }
    | "spec" => some fun fields value => do
      return { fields with spec := some (← Shape.ofDocument value) }
    | "status" => some fun fields value => do
      return { fields with status := ← Document.optional Shape.ofDocument value }
    | "operations" => some fun fields value => do
      return { fields with operations := ← Document.mapOf Operation.ofDocument value }
    | _ => none
  fields.finish

/-- What keeps a text from being a definition. -/
structure ReadError where
  defect : Document.Defect
  deriving DecidableEq, Repr

/-- The wording of the error. -/
def ReadError.message (_ : ReadError) : String :=
  "failed to parse resource definition"

/-- Reads a definition from the text of a document. -/
def read (text : String) : Except ReadError ResourceDefinition :=
  (Document.decode ofDocument text).mapError .mk

end ResourceDefinition

end Reconcile
