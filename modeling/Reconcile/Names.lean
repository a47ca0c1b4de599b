import Reconcile.Text.LetterCase

/-!
# Names

A member has one name in the schema and two in emitted code: an exported identifier and an
unexported one. A normalizer derives all three from the schema name. The default one raises
the first letter for the exported name and lowers the leading run of capitals for the other:
`VPCConfig` becomes `vpcConfig`.
-/

namespace Reconcile

/-- The spellings of one name. -/
structure Names where
  /-- The name in the schema. -/
  wire : String
  /-- The exported identifier, like `CreateBucketConfiguration`. -/
  exported : String
  /-- The unexported identifier, like `createBucketConfiguration`, used for local variables. -/
  unexported : String
  deriving DecidableEq, Inhabited, Repr

/-- Derives the spellings of a name from its schema name. -/
abbrev Normalizer := String → Names

namespace Names

/--
Lowers the leading run of capitals. In a run of several capitals before a small letter the
last capital starts the next word and stays. A text with a line feed is left alone.
-/
def lowerLeadingRun (name : String) : String :=
  let letters := name.toList
  let run := letters.takeWhile Char.isUpper
  let rest := letters.dropWhile Char.isUpper
  if letters.contains '\n' then name
  else if run.length > 1 && rest.head?.any Char.isLower then
    String.ofList (run.dropLast.map Char.toLower ++ run.drop (run.length - 1) ++ rest)
  else
    String.ofList (run.map Char.toLower ++ rest)

/-- The default spellings of a schema name. -/
def ofWire (wire : String) : Names :=
  let exported := Text.capitalize wire
  ⟨wire, exported, lowerLeadingRun exported⟩

end Names

namespace Normalizer

/-- The normalizer that raises the first letter and changes nothing else. -/
def default : Normalizer :=
  Names.ofWire

/-- The default normalizer with other spellings for the listed names. -/
def withSpellings (spellings : List Names) : Normalizer := fun wire =>
  (spellings.find? (fun names => names.wire == wire)).getD (default wire)

end Normalizer

end Reconcile
