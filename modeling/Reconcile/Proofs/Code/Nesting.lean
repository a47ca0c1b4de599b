import Reconcile.Proofs.Code.Blocks

/-!
# Nesting

Lines are well nested if every closing brace closes a block that is open, nothing stays open
behind the last line, and each line is indented by one tab for each block that it stands in.
Reading needs the lines in order and the number of open blocks only (`Line.Nested`). Code is laid
out from a tree, and well nested lines may stand in front of any lines that are well nested from
the same number of blocks on (`Code.nested_linesOf`), so that the parts of a tree are put
together without looking into them.
-/

namespace Reconcile

namespace Line

/-- The number of blocks that a line stands in, given the number of those open before it. -/
def depthAt (depth : Nat) (text : String) : Nat :=
  if closes text then depth - 1 else depth

/-- The number of blocks that are open behind a line. -/
def depthBehind (depth : Nat) (text : String) : Nat :=
  if opens text then depthAt depth text + 1 else depthAt depth text

/--
Whether lines are nested from a level on, given the number of blocks open before them: a line
that closes a block finds one open, each line stands at the level and one deeper for each block
around it, and no block is open in the end. Empty lines do not count.
-/
def Nested (level : Nat) : Nat → List Line → Prop
  | depth, [] => depth = 0
  | depth, line :: rest =>
      if line.text = "" then Nested level depth rest
      else
        (closes line.text = true → 0 < depth) ∧ line.level = level + depthAt depth line.text ∧
          Nested level (depthBehind depth line.text) rest

variable {level depth : Nat} {text : String} {rest : List Line}

@[simp]
theorem nested_blank : Nested level depth (blank :: rest) ↔ Nested level depth rest := by
  simp [Nested, blank]

/-- A line that opens and closes nothing. -/
theorem nested_flat (closesNot : closes text = false) (opensNot : opens text = false)
    (later : Nested level depth rest) : Nested level depth (⟨level + depth, text⟩ :: rest) := by
  rw [Nested]
  split
  · exact later
  · simpa [depthAt, depthBehind, closesNot, opensNot] using later

theorem nested_header {header : String} (closesNot : closes (header ++ " \x7b") = false)
    (later : Nested level (depth + 1) rest) :
    Nested level depth (⟨level + depth, header ++ " \x7b"⟩ :: rest) := by
  simpa [Nested, depthAt, depthBehind, closesNot, Code.opens_header] using later

theorem nested_otherwise (otherwise : String) (later : Nested level (depth + 1) rest) :
    Nested level (depth + 1) (⟨level + depth, "\x7d " ++ otherwise ++ " \x7b"⟩ :: rest) := by
  have closing : closes ("\x7d " ++ otherwise ++ " \x7b") = true := by simp [closes]
  have opening := Code.opens_header ("\x7d " ++ otherwise)
  simpa [Nested, depthAt, depthBehind, closing, opening] using later

theorem nested_end (later : Nested level depth rest) :
    Nested level (depth + 1) (⟨level + depth, "\x7d"⟩ :: rest) := by
  have closing : closes "\x7d" = true := by decide
  have opensNot : opens "\x7d" = false := by decide
  simpa [Nested, depthAt, depthBehind, closing, opensNot] using later

end Line

namespace Code

open Line

mutual

/-- Whether a piece of code holds no title, so that only blocks indent. -/
def IsUntitled : Code → Prop
  | .line _ => True
  | .block _ body => AreUntitled body
  | .branch _ body _ alternative => AreUntitled body ∧ AreUntitled alternative
  | .titled _ _ => False

/-- Whether several pieces of code hold no title. -/
def AreUntitled : List Code → Prop
  | [] => True
  | code :: rest => code.IsUntitled ∧ AreUntitled rest

end

theorem areUntitled_append {left right : List Code} :
    AreUntitled (left ++ right) ↔ AreUntitled left ∧ AreUntitled right := by
  induction left with
  | nil => simp [AreUntitled]
  | cons code rest ih => simp [AreUntitled, ih, and_assoc]

variable {property : List String → String → Prop}

mutual

/-- The lines of a piece of code leave the nesting of the lines behind it alone. -/
theorem nested_lines {blocks : List String} {level : Nat} : (code : Code) → (depth : Nat) →
    code.Holds property blocks → code.IsUntitled → ∀ {rest}, Nested level depth rest →
      Nested level depth (code.lines (level + depth) ++ rest)
  | .line text, depth, ⟨closesNot, opensNot, _⟩, _, rest, later => by
      simpa [lines] using nested_flat closesNot opensNot later
  | .block header body, depth, ⟨closesNot, _, inside, _⟩, untitled, rest, later => by
      have bodyNested := nested_linesOf body (depth + 1) inside untitled (nested_end later)
      simpa [lines, Nat.add_assoc] using nested_header closesNot bodyNested
  | .branch header body otherwise alternative, depth, ⟨closesNot, _, inside, _, otherInside, _⟩,
      ⟨untitled, otherUntitled⟩, rest, later => by
      have otherNested :=
        nested_linesOf alternative (depth + 1) otherInside otherUntitled (nested_end later)
      have bodyNested := nested_linesOf body (depth + 1) inside untitled
        (nested_otherwise otherwise otherNested)
      simpa [lines, Nat.add_assoc] using nested_header closesNot bodyNested
  | .titled _ _, _, _, impossible, _, _ => impossible.elim

theorem nested_linesOf {blocks : List String} {level : Nat} : (codes : List Code) →
    (depth : Nat) → HoldsOf property blocks codes → AreUntitled codes →
      ∀ {rest}, Nested level depth rest →
        Nested level depth (linesOf codes (level + depth) ++ rest)
  | [], _, _, _, _, later => by simpa [linesOf] using later
  | code :: others, depth, ⟨holds, othersHold⟩, ⟨untitled, othersUntitled⟩, rest, later => by
      have behind := nested_linesOf others depth othersHold othersUntitled later
      simpa [linesOf] using nested_lines code depth holds untitled behind

end

/-- Whether a text consists of lines that are nested from a level on. -/
structure IsNested (level : Nat) (text : String) : Prop where
  isLines : (Page.empty.write (Line.readAll text)).text = text
  nested : Nested level 0 (Line.readAll text)

theorem isNested_of_lines {level : Nat} {text : String} {lines : List Line}
    (isText : text = (Page.empty.write lines).text) (isRead : Line.readAll text = lines)
    (nested : Nested level 0 lines) : IsNested level text where
  isLines := by rw [isRead, isText]
  nested := by rwa [isRead]

end Code

end Reconcile
