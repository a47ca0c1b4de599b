import Reconcile.Proofs.Code.Reading

/-!
# Open blocks

A line that ends with an opening brace opens a block and a line that starts with a closing
brace closes one. Reading lines in order tells which blocks are open at each of them.
Statements about all lines of emitted code together with their open blocks are shown on the
tree that the lines are laid out from: what holds piece by piece (`Code.HoldsOf`) holds line by
line (`Code.holds_linesOf`), and code leaves no block open (`Code.behindAll_linesOf`).
-/

namespace Reconcile

namespace Line

/-- Whether a line closes a block. -/
def closes (text : String) : Bool :=
  text.toList.head? == some '\x7d'

/-- Whether a line opens a block. -/
def opens (text : String) : Bool :=
  text.toList.getLast? == some '\x7b'

/-- The blocks that a line stands in, given those open before it, innermost first. -/
def around (blocks : List String) (text : String) : List String :=
  if closes text then blocks.tail else blocks

/-- The blocks that are open behind a line. A block goes by the line that opens it. -/
def behind (blocks : List String) (text : String) : List String :=
  if opens text then text :: around blocks text else around blocks text

/-- The blocks that are open behind lines. -/
def behindAll (blocks : List String) (lines : List Line) : List String :=
  lines.foldl (fun blocks line => behind blocks line.text) blocks

/-- Whether every line has a property together with the blocks that it stands in. -/
def Hold (property : List String → String → Prop) (blocks : List String) : List Line → Prop
  | [] => True
  | line :: rest =>
      property (around blocks line.text) line.text ∧ Hold property (behind blocks line.text) rest

theorem opens_append (left : String) {right : String} (nonempty : right ≠ "") :
    opens (left ++ right) = opens right := by
  have letters : right.toList ≠ [] := by simpa using nonempty
  rw [opens, opens, String.toList_append, List.getLast?_append,
    List.getLast?_eq_some_getLast letters, Option.some_or]

variable {property : List String → String → Prop} {blocks : List String}

@[simp]
theorem behindAll_nil : behindAll blocks [] = blocks := rfl

@[simp]
theorem behindAll_cons (line : Line) (rest : List Line) :
    behindAll blocks (line :: rest) = behindAll (behind blocks line.text) rest := rfl

@[simp]
theorem behindAll_append (left right : List Line) :
    behindAll blocks (left ++ right) = behindAll (behindAll blocks left) right := by
  simp [behindAll]

theorem hold_append {left right : List Line} :
    Hold property blocks (left ++ right) ↔
      Hold property blocks left ∧ Hold property (behindAll blocks left) right := by
  induction left generalizing blocks with
  | nil => simp [Hold]
  | cons line rest ih => simp [Hold, ih, and_assoc]

theorem Hold.at_place {lines earlier later : List Line} {line : Line}
    (hold : Hold property blocks lines) (place : lines = earlier ++ line :: later) :
    property (around (behindAll blocks earlier) line.text) line.text := by
  subst place
  exact (hold_append.mp hold).2.1

theorem Hold.of_mem {lines : List Line} {line : Line} (hold : Hold property blocks lines)
    (membership : line ∈ lines) : ∃ blocks, property blocks line.text := by
  rcases List.append_of_mem membership with ⟨earlier, later, place⟩
  exact ⟨_, hold.at_place place⟩

end Line

namespace Code

open Line

mutual

/--
Whether every line of a piece of code has a property together with the blocks that it stands
in, and opens and closes no block but those of the piece.
-/
def Holds (property : List String → String → Prop) (blocks : List String) : Code → Prop
  | .line text => closes text = false ∧ opens text = false ∧ property blocks text
  | .block header body =>
      closes (header ++ " \x7b") = false ∧ property blocks (header ++ " \x7b") ∧
        HoldsOf property ((header ++ " \x7b") :: blocks) body ∧ property blocks "\x7d"
  | .branch header body otherwise alternative =>
      closes (header ++ " \x7b") = false ∧ property blocks (header ++ " \x7b") ∧
        HoldsOf property ((header ++ " \x7b") :: blocks) body ∧
        property blocks ("\x7d " ++ otherwise ++ " \x7b") ∧
        HoldsOf property (("\x7d " ++ otherwise ++ " \x7b") :: blocks) alternative ∧
        property blocks "\x7d"
  | .titled title body =>
      closes title = false ∧ opens title = false ∧ property blocks title ∧
        HoldsOf property blocks body

/-- Whether every line of several pieces has a property. -/
def HoldsOf (property : List String → String → Prop) (blocks : List String) :
    List Code → Prop
  | [] => True
  | code :: rest => code.Holds property blocks ∧ HoldsOf property blocks rest

end

variable {property : List String → String → Prop}

theorem holdsOf_append {blocks : List String} {left right : List Code} :
    HoldsOf property blocks (left ++ right) ↔
      HoldsOf property blocks left ∧ HoldsOf property blocks right := by
  induction left with
  | nil => simp [HoldsOf]
  | cons code rest ih => simp [HoldsOf, ih, and_assoc]

mutual

theorem Holds.mono {weaker : List String → String → Prop}
    (implies : ∀ blocks text, property blocks text → weaker blocks text) {blocks : List String} :
    (code : Code) → code.Holds property blocks → code.Holds weaker blocks
  | .line _, ⟨closesNot, opensNot, holds⟩ => ⟨closesNot, opensNot, implies _ _ holds⟩
  | .block _ body, ⟨closesNot, first, inside, last⟩ =>
      ⟨closesNot, implies _ _ first, HoldsOf.mono implies body inside, implies _ _ last⟩
  | .branch _ body _ alternative, ⟨closesNot, first, inside, middle, alternativeInside, last⟩ =>
      ⟨closesNot, implies _ _ first, HoldsOf.mono implies body inside, implies _ _ middle,
        HoldsOf.mono implies alternative alternativeInside, implies _ _ last⟩
  | .titled _ body, ⟨closesNot, opensNot, first, inside⟩ =>
      ⟨closesNot, opensNot, implies _ _ first, HoldsOf.mono implies body inside⟩

theorem HoldsOf.mono {weaker : List String → String → Prop}
    (implies : ∀ blocks text, property blocks text → weaker blocks text) {blocks : List String} :
    (codes : List Code) → HoldsOf property blocks codes → HoldsOf weaker blocks codes
  | [], _ => trivial
  | code :: rest, ⟨holds, restHolds⟩ =>
      ⟨Holds.mono implies code holds, HoldsOf.mono implies rest restHolds⟩

end

theorem opens_header (header : String) : opens (header ++ " \x7b") = true := by
  simp [opens]

theorem around_header {header : String} (flat : closes (header ++ " \x7b") = false)
    (blocks : List String) : around blocks (header ++ " \x7b") = blocks := by
  simp [around, flat]

theorem behind_header {header : String} (flat : closes (header ++ " \x7b") = false)
    (blocks : List String) :
    behind blocks (header ++ " \x7b") = (header ++ " \x7b") :: blocks := by
  rw [behind, if_pos (opens_header header), around_header flat]

theorem around_flat {text : String} (flat : closes text = false) (blocks : List String) :
    around blocks text = blocks := by
  simp [around, flat]

theorem behind_flat {text : String} (closesNot : closes text = false)
    (opensNot : opens text = false) (blocks : List String) : behind blocks text = blocks := by
  simp [behind, around, closesNot, opensNot]

@[simp]
theorem around_end (header : String) (blocks : List String) :
    around (header :: blocks) "\x7d" = blocks := by
  rfl

@[simp]
theorem behind_end (header : String) (blocks : List String) :
    behind (header :: blocks) "\x7d" = blocks := by
  rfl

theorem around_otherwise (header otherwise : String) (blocks : List String) :
    around (header :: blocks) ("\x7d " ++ otherwise ++ " \x7b") = blocks := by
  have closing : closes ("\x7d " ++ otherwise ++ " \x7b") = true := by simp [closes]
  simp [around, closing]

theorem behind_otherwise (header otherwise : String) (blocks : List String) :
    behind (header :: blocks) ("\x7d " ++ otherwise ++ " \x7b") =
      ("\x7d " ++ otherwise ++ " \x7b") :: blocks := by
  rw [behind, if_pos (opens_header ("\x7d " ++ otherwise)), around_otherwise]

mutual

/-- What holds in a piece of code holds in its lines, which leave no block open. -/
theorem hold_lines {blocks : List String} : (code : Code) → (level : Nat) →
    code.Holds property blocks →
      Hold property blocks (code.lines level) ∧ behindAll blocks (code.lines level) = blocks
  | .line text, level, ⟨closesNot, opensNot, holds⟩ => by
      simp [lines, Hold, around_flat closesNot, behind_flat closesNot opensNot, holds]
  | .block header body, level, ⟨closesNot, first, inside, last⟩ => by
      rcases hold_linesOf body (level + 1) inside with ⟨bodyHolds, bodyCloses⟩
      simp [lines, Hold, hold_append, around_header closesNot, behind_header closesNot, first,
        bodyHolds, bodyCloses, last]
  | .branch header body otherwise alternative, level,
      ⟨closesNot, first, inside, middle, alternativeInside, last⟩ => by
      rcases hold_linesOf body (level + 1) inside with ⟨bodyHolds, bodyCloses⟩
      rcases hold_linesOf alternative (level + 1) alternativeInside with
        ⟨alternativeHolds, alternativeCloses⟩
      simp [lines, Hold, hold_append, around_header closesNot, behind_header closesNot, first,
        bodyHolds, bodyCloses, around_otherwise, behind_otherwise, middle, alternativeHolds,
        alternativeCloses, last]
  | .titled title body, level, ⟨closesNot, opensNot, first, inside⟩ => by
      rcases hold_linesOf body (level + 1) inside with ⟨bodyHolds, bodyCloses⟩
      simp [lines, Hold, around_flat closesNot, behind_flat closesNot opensNot, first, bodyHolds,
        bodyCloses]

theorem hold_linesOf {blocks : List String} : (codes : List Code) → (level : Nat) →
    HoldsOf property blocks codes →
      Hold property blocks (linesOf codes level) ∧
        behindAll blocks (linesOf codes level) = blocks
  | [], level, _ => by
      simp [linesOf, Hold]
  | code :: rest, level, ⟨holds, restHolds⟩ => by
      rcases hold_lines code level holds with ⟨first, firstCloses⟩
      rcases hold_linesOf rest level restHolds with ⟨others, othersClose⟩
      simp [linesOf, hold_append, first, firstCloses, others, othersClose]

end

end Code

end Reconcile
