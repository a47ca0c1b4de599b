import Reconcile.Text.LetterCase
import Reconcile.Text.Pieces

/-!
# Field paths

The location of a field below the root of a resource, as the list of the member names that
lead to it. A path is written with dots between its segments and is read back from that
text. Paths are ordered segment by segment, a path before every longer path that starts
with it.
-/

namespace Reconcile

/-- A location as a list of member names. -/
structure FieldPath where
  /-- The member names from the outermost to the innermost. -/
  segments : List String
  deriving DecidableEq, Inhabited, Repr

namespace FieldPath

/-- What keeps a text from being a path. -/
inductive ParseError where
  /-- The text is empty. -/
  | emptyInput
  /-- The segment at this index is empty. -/
  | emptySegment (index : Nat)
  deriving DecidableEq, Repr

/-- The wording of a parse error. -/
def ParseError.message : ParseError → String
  | .emptyInput => "field path input cannot be empty"
  | .emptySegment index => s!"field path segment at index {index} cannot be empty"

/-- The path without segments. -/
def empty : FieldPath := ⟨[]⟩

/-- The segments with dots between them. -/
def text (path : FieldPath) : String :=
  ".".intercalate path.segments

/-- Reads a dotted text. The text and all its segments must be non-empty. -/
def parse (input : String) : Except ParseError FieldPath :=
  if input.isEmpty then .error .emptyInput
  else
    let segments := Text.split '.' input
    match segments.findIdx? String.isEmpty with
    | some index => .error (.emptySegment index)
    | none => .ok ⟨segments⟩

/-- The number of segments. -/
def length (path : FieldPath) : Nat :=
  path.segments.length

/-- Whether the path has no segments. -/
def isEmpty (path : FieldPath) : Bool :=
  path.segments.isEmpty

/-- The outermost segment. -/
def front? (path : FieldPath) : Option String :=
  path.segments.head?

/-- The innermost segment. -/
def back? (path : FieldPath) : Option String :=
  path.segments.getLast?

/-- The segment at an index. -/
def at? (path : FieldPath) (index : Nat) : Option String :=
  path.segments[index]?

/-- The outermost segment and the segments below it, if there are any below it. -/
def splitRoot? (path : FieldPath) : Option (String × List String) :=
  match path.segments with
  | root :: first :: rest => some (root, first :: rest)
  | _ => none

/-- The path below a further outermost segment. -/
def pushFront (path : FieldPath) (segment : String) : FieldPath :=
  ⟨segment :: path.segments⟩

/-- The path of a member of the value at this path. -/
def child (path : FieldPath) (segment : String) : FieldPath :=
  ⟨path.segments ++ [segment]⟩

/-- The path without its outermost segment. -/
def tail (path : FieldPath) : FieldPath :=
  ⟨path.segments.tail⟩

/-- The path without its innermost segment; the empty path is its own parent. -/
def parent (path : FieldPath) : FieldPath :=
  ⟨path.segments.dropLast⟩

/-- The leading segments up to and including an index. -/
def upTo? (path : FieldPath) (index : Nat) : Option FieldPath :=
  if index < path.length then some ⟨path.segments.take (index + 1)⟩ else none

/-- Whether the segments of the dotted subject lead this path, under a test for equal segments. -/
def startsWithBy (same : String → String → Bool) (path : FieldPath) (subject : String) : Bool :=
  let leading := Text.split '.' subject
  leading.length ≤ path.length && (leading.zip path.segments).all (fun pair => same pair.2 pair.1)

/-- Whether the dotted subject leads this path. -/
def startsWith (path : FieldPath) (subject : String) : Bool :=
  path.startsWithBy (· == ·) subject

/-- Whether the dotted subject leads this path up to letter case. -/
def startsWithIgnoringCase (path : FieldPath) (subject : String) : Bool :=
  path.startsWithBy Text.equalIgnoringCase subject

instance : Ord FieldPath where
  compare left right := left.segments.compareLex compare right.segments

@[simp]
theorem segments_child (path : FieldPath) (segment : String) :
    (path.child segment).segments = path.segments ++ [segment] := rfl

@[simp]
theorem parent_child (path : FieldPath) (segment : String) :
    (path.child segment).parent = path := by
  simp [child, parent]

theorem segments_of_parse {input : String} {path : FieldPath} (parsed : parse input = .ok path) :
    path.segments = Text.split '.' input := by
  unfold parse at parsed
  split at parsed
  · cases parsed
  · dsimp only at parsed
    split at parsed
    · cases parsed
    · cases parsed
      rfl

end FieldPath

end Reconcile
