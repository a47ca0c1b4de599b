import Reconcile.Document.Decode

/-!
# Shapes in documents

A shape is written as a mapping with the word for its type and the parts of that type. The
mapping is read in full into a draft before the draft is checked.
-/

namespace Reconcile.Shape

/-- The fields of a draft that were found so far. -/
structure DraftFields where
  type : Option String := none
  name : Option String := none
  members : Entries Draft := []
  member : Option Draft := none
  key : Option Draft := none
  value : Option Draft := none

/-- The draft of the fields. Its type must be given. -/
def DraftFields.finish (fields : DraftFields) : Except Document.Defect Draft := do
  let type ← Document.require "type" fields.type
  return .mk type fields.name fields.members fields.member fields.key fields.value

namespace Draft

mutual

/-- Decodes a draft. -/
def ofDocument : Document → Except Document.Defect Draft
  | .blank => DraftFields.finish {}
  | .mapping entries closed => do
    let fields ← ofFields {} entries
    Document.requireClosed closed
    fields.finish
  | document => .error document.mismatch

/-- Decodes a part that may be given as `null` or left out. -/
def ofPart : Document → Except Document.Defect (Option Draft)
  | .mapping entries closed => do
    let fields ← ofFields {} entries
    Document.requireClosed closed
    return some (← fields.finish)
  | document => if document.isAbsent then .ok none else .error document.mismatch

/-- Decodes the fields of a draft in order. -/
def ofFields (fields : DraftFields) :
    List (String × Document) → Except Document.Defect DraftFields
  | [] => .ok fields
  | (key, document) :: rest => do
    match key with
    | "type" =>
      let type ← document.asText
      ofFields { fields with type := some type } rest
    | "name" =>
      let name ← Document.optional Document.asText document
      ofFields { fields with name } rest
    | "members" =>
      match document with
      | .blank => ofFields { fields with members := [] } rest
      | .mapping entries closed =>
        let members ← ofMembers entries
        Document.requireClosed closed
        ofFields { fields with members := (OrderedMap.ofList members).entries } rest
      | document => .error document.mismatch
    | "member" =>
      let member ← ofPart document
      ofFields { fields with member } rest
    | "key" =>
      let key ← ofPart document
      ofFields { fields with key } rest
    | "value" =>
      let value ← ofPart document
      ofFields { fields with value } rest
    | key => .error (.unknownField key)

/-- Decodes the members of a structure in order. -/
def ofMembers : List (String × Document) → Except Document.Defect (Entries Draft)
  | [] => .ok []
  | (name, document) :: rest => do
    let draft ← ofDocument document
    return (name, draft) :: (← ofMembers rest)

end

end Draft

/-- Decodes a shape. -/
def ofDocument : Document.Decoder Shape := fun document => do
  let draft ← Draft.ofDocument document
  draft.check.mapError .shape

/-- Reads a shape from the text of a document. -/
def read (text : String) : Except Document.Defect Shape :=
  Document.decode ofDocument text

end Reconcile.Shape
