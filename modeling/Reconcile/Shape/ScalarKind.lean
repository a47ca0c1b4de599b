import Reconcile.Text.LetterCase

/-!
# Scalar kinds

The kinds of value that a schema does not take apart, the words that schemas use for them
and their types in emitted code.
-/

namespace Reconcile

/-- The kind of a value without parts. -/
inductive ScalarKind where
  | string
  | integer
  | float
  | boolean
  | timestamp
  | blob
  deriving DecidableEq, Inhabited, Repr

namespace ScalarKind

/-- The name of the kind. -/
def name : ScalarKind → String
  | .string => "string"
  | .integer => "integer"
  | .float => "float"
  | .boolean => "boolean"
  | .timestamp => "timestamp"
  | .blob => "blob"

/-- The kind that a small-letter schema word stands for. -/
def ofLowerWord? : String → Option ScalarKind
  | "string" | "character" => some .string
  | "integer" | "long" | "short" | "byte" => some .integer
  | "float" | "double" => some .float
  | "boolean" => some .boolean
  | "timestamp" => some .timestamp
  | "blob" => some .blob
  | _ => none

/-- The kind that a schema word stands for, in any letter case. -/
def ofWord? (word : String) : Option ScalarKind :=
  ofLowerWord? (Text.lower word)

/-- The type without its pointer. -/
def goElementType : ScalarKind → String
  | .string => "string"
  | .integer => "int64"
  | .float => "float64"
  | .boolean => "bool"
  | .timestamp => "metav1.Time"
  | .blob => "[]byte"

/-- The type of a field of this kind: a pointer, but for blobs, where a missing value is empty. -/
def goType : ScalarKind → String
  | .blob => goElementType .blob
  | kind => "*" ++ goElementType kind

/-- The name of the kind with a capital. -/
def title (kind : ScalarKind) : String :=
  Text.capitalize kind.name

end ScalarKind

end Reconcile
