import Reconcile.Document.Scanner

/-!
# Documents

A document is a tree of texts, words, lists and mappings whose entries keep their order. Reading
never fails: where a text stops being well formed or goes too deep the tree is cut short, and
whoever takes the tree apart meets the cut at the place where the text has its fault. A fault
that nobody gets to does not hide an earlier defect of the content.
-/

namespace Reconcile

/-- A document as far as its text is well formed. -/
inductive Document where
  /-- Nothing where a value could stand. -/
  | blank
  /-- A bare word, such as a number. What it stands for depends on what is asked for. -/
  | word (letters : String)
  | text (value : String)
  /-- Items in order; `closed` says that the end of the list was read. -/
  | list (items : List Document) (closed : Bool)
  /-- Entries in order; `closed` says that the end of the mapping was read. -/
  | mapping (entries : List (String × Document)) (closed : Bool)
  /-- The place where the text stops being well formed. -/
  | cut
  deriving Inhabited, Repr

namespace Document

/-- A list or mapping that is still being read and waits for a value. Parts are in reverse. -/
inductive Frame where
  | list (items : List Document)
  | entry (entries : List (String × Document)) (key : String)

/-- What is due next, inside the frames that are open. -/
inductive State where
  /-- A value. -/
  | value (around : List Frame)
  /-- An item of a list or its end. -/
  | item (around : List Frame) (items : List Document)
  /-- A comma in a list or its end. -/
  | afterItem (around : List Frame) (items : List Document)
  /-- A key of a mapping or its end. -/
  | key (around : List Frame) (entries : List (String × Document))
  /-- The colon behind a key. -/
  | colon (around : List Frame) (entries : List (String × Document)) (key : String)
  /-- A comma in a mapping or its end. -/
  | afterEntry (around : List Frame) (entries : List (String × Document))
  /-- Nothing, because the document is complete. -/
  | done (document : Document)
  /-- Nothing, because the text goes too deep behind what was read. -/
  | tooDeep (document : Document)

/-- How many lists and mappings may be inside each other. -/
def deepest : Nat := 128

/-- Hands a finished value to the innermost frame. -/
def deliver (document : Document) : List Frame → State
  | [] => .done document
  | .list items :: around => .afterItem around (document :: items)
  | .entry entries key :: around => .afterEntry around ((key, document) :: entries)

/-- A value with the open frames around it, none of them closed. -/
def enclose (document : Document) : List Frame → Document
  | [] => document
  | .list items :: around => enclose (.list (document :: items).reverse false) around
  | .entry entries key :: around =>
    enclose (.mapping ((key, document) :: entries).reverse false) around

/-- Opens a list or mapping. One that is too deep stays empty and open. -/
def descend (around : List Frame) (empty : Document) (inside : State) : State :=
  if around.length < deepest then inside else .tooDeep (enclose empty around)

/-- Starts a value. -/
def begin? (around : List Frame) : Lexeme → Option State
  | .beginList => some (descend around (.list [] false) (.item around []))
  | .beginMapping => some (descend around (.mapping [] false) (.key around []))
  | .text value => some (deliver (.text value) around)
  | .word letters => some (deliver (.word letters) around)
  | _ => none

/-- Takes a lexeme, unless it is not what is due. The value of a key may be left out. -/
def next? : State → Lexeme → Option State
  | .value (.entry entries key :: around), .endMapping =>
    some (deliver (.mapping ((key, .blank) :: entries).reverse true) around)
  | .value (.entry entries key :: around), .comma => some (.key around ((key, .blank) :: entries))
  | .value around, lexeme => begin? around lexeme
  | .item around items, .endList => some (deliver (.list items.reverse true) around)
  | .item around items, lexeme => begin? (.list items :: around) lexeme
  | .afterItem around items, .endList => some (deliver (.list items.reverse true) around)
  | .afterItem around items, .comma => some (.item around items)
  | .key around entries, .endMapping => some (deliver (.mapping entries.reverse true) around)
  | .key around entries, .text key => some (.colon around entries key)
  | .key around entries, .word key => some (.colon around entries key)
  | .colon around entries key, .colon => some (.value (.entry entries key :: around))
  | .colon around entries key, .endMapping =>
    some (deliver (.mapping ((key, .blank) :: entries).reverse true) around)
  | .colon around entries key, .comma => some (.key around ((key, .blank) :: entries))
  | .afterEntry around entries, .endMapping =>
    some (deliver (.mapping entries.reverse true) around)
  | .afterEntry around entries, .comma => some (.key around entries)
  | _, _ => none

/-- What was read when the text ends or goes on in another way than is due. -/
def State.cutShort : State → Document
  | .value around => enclose .cut around
  | .item around items => enclose (.list items.reverse false) around
  | .afterItem around items => enclose (.list items.reverse false) around
  | .key around entries => enclose (.mapping entries.reverse false) around
  | .colon around entries name =>
    enclose (.mapping ((name, .blank) :: entries).reverse false) around
  | .afterEntry around entries => enclose (.mapping entries.reverse false) around
  | .done document => document
  | .tooDeep document => document

/-- The state that a fault leaves. The value of a key in front of it is not to be had. -/
def State.beforeFault : State → State
  | .colon around entries name => .value (.entry entries name :: around)
  | state => state

/-- The outcome of reading a text. -/
structure Reading where
  /-- The document as far as it goes. -/
  document : Document
  /-- Whether nothing follows the document. -/
  ended : Bool
  deriving Repr

/-- Reads on from a state. -/
def readFrom : State → List Lexeme → Reading
  | state, [] => ⟨state.cutShort, true⟩
  | state, .fault :: _ => ⟨state.beforeFault.cutShort, false⟩
  | state, lexeme :: rest =>
    match next? state lexeme with
    | some state => readFrom state rest
    | none => ⟨state.cutShort, false⟩

/-- Reads a text. A text without lexemes is a blank document. -/
def read (text : String) : Reading :=
  match Lexeme.ofText text with
  | [] => ⟨.blank, true⟩
  | lexemes => readFrom (.value []) lexemes

end Document

end Reconcile
