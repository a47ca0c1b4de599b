import Reconcile.Document.Decode
import Reconcile.Number.Basic

/-!
# Values of settings

Settings may hold values of any type, which are kept as they are until it is known what they
are compared with. Messages describe a value by its text, and a value with parts by the names
of its types.
-/

namespace Reconcile

/-- A value without a type fixed beforehand. -/
inductive Value where
  | null
  | boolean (value : Bool)
  | number (value : Number)
  | text (value : String)
  | list (items : List Value)
  | mapping (entries : List (String × Value))
  deriving Inhabited, Repr

namespace Value

/-- What a bare word stands for. A number out of range stays the text it is written with. -/
def ofWord (letters : String) : Value :=
  if Document.isNull letters then .null
  else
    match Document.truth? letters with
    | some value => .boolean value
    | none =>
      match (Decimal.ofLiteral? letters).bind Number.ofDecimal? with
      | some value => .number value
      | none => .text letters

mutual

/-- Decodes a value of any type. -/
def ofDocument : Document → Except Document.Defect Value
  | .blank => .ok .null
  | .word letters => .ok (ofWord letters)
  | .text value => .ok (.text value)
  | .list items closed => do
    let values ← ofItems items
    Document.requireClosed closed
    return .list values
  | .mapping entries closed => do
    let values ← ofEntries entries
    Document.requireClosed closed
    return .mapping values
  | .cut => .error .malformed

/-- Decodes items in order. -/
def ofItems : List Document → Except Document.Defect (List Value)
  | [] => .ok []
  | item :: rest => do
    let value ← ofDocument item
    return value :: (← ofItems rest)

/-- Decodes entries in order. -/
def ofEntries : List (String × Document) → Except Document.Defect (List (String × Value))
  | [] => .ok []
  | (key, document) :: rest => do
    let value ← ofDocument document
    return (key, value) :: (← ofEntries rest)

end

mutual

/-- The value spelled out with the names of its types. -/
def spelled : Value → String
  | .null => "Null"
  | .boolean value => "Bool(" ++ toString value ++ ")"
  | .number value => "Number(" ++ value.text ++ ")"
  | .text value => "String(" ++ Text.quoted value ++ ")"
  | .list items => "Sequence [" ++ ", ".intercalate (spelledItems items) ++ "]"
  | .mapping entries => "Mapping \x7b" ++ ", ".intercalate (spelledEntries entries) ++ "\x7d"

/-- The items spelled out. -/
def spelledItems : List Value → List String
  | [] => []
  | item :: rest => item.spelled :: spelledItems rest

/-- The entries spelled out. -/
def spelledEntries : List (String × Value) → List String
  | [] => []
  | (key, value) :: rest => (Text.quoted key ++ ": " ++ value.spelled) :: spelledEntries rest

end

/-- The value as messages describe it: a scalar by its text, other values spelled out. -/
def describe : Value → String
  | .text value => value
  | .number value => value.text
  | .boolean value => toString value
  | value => value.spelled

end Value

end Reconcile
