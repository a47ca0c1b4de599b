import Reconcile.Document.Basic
import Reconcile.OrderedMap
import Reconcile.Shape.Draft

/-!
# Decoding documents

Taking a document apart into the values of the library. Content is looked at in the order of
the document and the first defect is reported: an unknown key at the key, a missing field at
the end of its mapping, a cut of the text where the text is cut.
-/

namespace Reconcile.Document

/-- What keeps a document from being what is asked for. -/
inductive Defect where
  /-- A required field is absent. -/
  | missingField (name : String)
  /-- A key is none of the fields. -/
  | unknownField (name : String)
  /-- A value is of another type. -/
  | wrongType
  /-- The text is not well formed. -/
  | malformed
  /-- A shape cannot be accepted. -/
  | shape (defect : Shape.Defect)
  deriving DecidableEq, Repr

/-- The wording of a defect. -/
def Defect.message : Defect → String
  | .missingField name => "missing field `" ++ name ++ "`"
  | .unknownField name => "unknown field `" ++ name ++ "`"
  | .wrongType => "invalid type"
  | .malformed => "syntax"
  | .shape defect => defect.message

/-- Decodes a value or reports its first defect. -/
abbrev Decoder (α : Type) := Document → Except Defect α

/-- The defect of a document that is not of the type asked for. -/
def mismatch : Document → Defect
  | .cut => .malformed
  | _ => .wrongType

/-- The truth value that a word stands for. -/
def truth? : String → Option Bool
  | "true" | "True" | "TRUE" => some true
  | "false" | "False" | "FALSE" => some false
  | _ => none

/-- Whether a word says that there is no value. -/
def isNull (letters : String) : Bool :=
  ["null", "Null", "NULL", "~"].contains letters

/-- Whether a document gives no value. -/
def isAbsent : Document → Bool
  | .blank => true
  | .word letters => isNull letters
  | _ => false

/-- A truth value. -/
def asBoolean : Decoder Bool := fun document =>
  match document with
  | .word letters =>
    match truth? letters with
    | some value => .ok value
    | none => .error .wrongType
  | document => .error document.mismatch

/-- A text. A word of any kind stands for the text it is written with. -/
def asText : Decoder String
  | .blank => .ok ""
  | .word letters => .ok letters
  | .text value => .ok value
  | document => .error document.mismatch

/-- A value that may be given as `null` or left out. -/
def optional {α : Type} (decode : Decoder α) : Decoder (Option α) := fun document =>
  if document.isAbsent then .ok none else some <$> decode document

/-- Whether the end of a list, a mapping or the whole document was read. -/
def requireClosed (closed : Bool) : Except Defect Unit :=
  if closed then .ok () else .error .malformed

/-- A list. A blank is the empty one. -/
def listOf {α : Type} (decode : Decoder α) : Decoder (List α)
  | .blank => .ok []
  | .list items closed => do
    let values ← items.mapM decode
    requireClosed closed
    return values
  | document => .error document.mismatch

/-- A mapping with free keys. A blank is the empty one. -/
def mapOf {α : Type} (decode : Decoder α) : Decoder (OrderedMap α)
  | .blank => .ok ∅
  | .mapping entries closed => do
    let values ← entries.mapM (fun entry => do return (entry.1, ← decode entry.2))
    requireClosed closed
    return OrderedMap.ofList values
  | document => .error document.mismatch

/--
A mapping with fixed keys. `field` gives for each key how its value changes the record;
decoding starts from a record of defaults. A blank changes nothing.
-/
def record {α : Type} (start : α) (field : String → Option (α → Decoder α)) : Decoder α
  | .blank => .ok start
  | .mapping entries closed => do
    let result ← entries.foldlM
      (fun result entry =>
        match field entry.1 with
        | some change => change result entry.2
        | none => .error (.unknownField entry.1)) start
    requireClosed closed
    return result
  | document => .error document.mismatch

/-- A field that was found, or else the defect that it is missing. -/
def require {α : Type} (name : String) : Option α → Except Defect α
  | some value => .ok value
  | none => .error (.missingField name)

/-- Decodes a text. What follows the document is looked at last. -/
def decode {α : Type} (decoder : Decoder α) (text : String) : Except Defect α := do
  let reading := read text
  let value ← decoder reading.document
  requireClosed reading.ended
  return value

end Reconcile.Document
