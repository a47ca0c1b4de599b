import Reconcile.Code.Page

/-!
# Code

Emitted code is a tree: statements that stand on a line of their own and blocks in braces.
Every block that is opened is closed, and a block's body stands one level deeper, because
the tree is laid out in lines by one function.
-/

namespace Reconcile

/-- A piece of emitted code. -/
inductive Code where
  /-- A line that opens and closes nothing. -/
  | line (text : String)
  /-- A header with a body in braces. -/
  | block (header : String) (body : List Code)
  /-- A header with a body, and an alternative with its own header. -/
  | branch (header : String) (body : List Code) (otherwise : String) (alternative : List Code)
  /-- A line with what belongs to it one level deeper. -/
  | titled (title : String) (body : List Code)
  deriving Inhabited, Repr

namespace Code

mutual

/-- The lines of a piece of code at a level. -/
def lines : Code → Nat → List Line
  | .line text, level => [⟨level, text⟩]
  | .block header body, level =>
    ⟨level, header ++ " \x7b"⟩ :: (linesOf body (level + 1) ++ [⟨level, "\x7d"⟩])
  | .branch header body otherwise alternative, level =>
    ⟨level, header ++ " \x7b"⟩ ::
      (linesOf body (level + 1) ++
        ⟨level, "\x7d " ++ otherwise ++ " \x7b"⟩ ::
          (linesOf alternative (level + 1) ++ [⟨level, "\x7d"⟩]))
  | .titled title body, level => ⟨level, title⟩ :: linesOf body (level + 1)

/-- The lines of several pieces one after the other. -/
def linesOf : List Code → Nat → List Line
  | [], _ => []
  | code :: rest, level => code.lines level ++ linesOf rest level

end

/-- The text of several pieces at a level. -/
def render (codes : List Code) (level : Nat) : String :=
  (Page.empty.write (linesOf codes level)).text

/-- The text of several pieces at a level, behind an empty line. -/
def renderBehindBlank (codes : List Code) (level : Nat) : String :=
  (Page.empty.blank.write (linesOf codes level)).text

/-- A body inside headers, the first header outermost. -/
def nest (headers : List String) (body : List Code) : List Code :=
  headers.foldr (fun header inside => [.block header inside]) body

@[simp]
theorem nest_nil (body : List Code) : nest [] body = body := rfl

@[simp]
theorem nest_cons (header : String) (rest : List String) (body : List Code) :
    nest (header :: rest) body = [.block header (nest rest body)] := rfl

theorem linesOf_append (left right : List Code) (level : Nat) :
    linesOf (left ++ right) level = linesOf left level ++ linesOf right level := by
  induction left with
  | nil => simp [linesOf]
  | cons code rest ih => simp [linesOf, ih]

end Code

end Reconcile
