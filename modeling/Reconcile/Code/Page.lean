/-!
# Pages

A page is a text that only grows. Lines are indented with tabs, one for each level, and each
line is ended.
-/

namespace Reconcile

/-- A line of code: its level and its text. -/
structure Line where
  level : Nat
  text : String
  deriving DecidableEq, Inhabited, Repr

/-- The tabs in front of a line. -/
def Line.indentation (line : Line) : String :=
  String.ofList (List.replicate line.level '\t')

/-- The line with its tabs and its end. -/
def Line.render (line : Line) : String :=
  line.indentation ++ line.text ++ "\n"

/-- A text that grows at its end. -/
structure Page where
  text : String
  deriving DecidableEq, Inhabited, Repr

namespace Page

/-- The page without text. -/
def empty : Page := ⟨""⟩

/-- Whether nothing was written. -/
def isEmpty (page : Page) : Bool :=
  page.text.isEmpty

/-- The page with a text added as it is. -/
def append (page : Page) (text : String) : Page :=
  ⟨page.text ++ text⟩

/-- The page with a line added. -/
def line (page : Page) (level : Nat) (text : String) : Page :=
  page.append (Line.render ⟨level, text⟩)

/-- The page with an empty line added. -/
def blank (page : Page) : Page :=
  page.append "\n"

/-- The page with lines added. -/
def write (page : Page) (lines : List Line) : Page :=
  lines.foldl (fun page line => page.append line.render) page

@[simp]
theorem write_nil (page : Page) : page.write [] = page := rfl

@[simp]
theorem write_cons (page : Page) (line : Line) (rest : List Line) :
    page.write (line :: rest) = (page.append line.render).write rest := rfl

end Page

end Reconcile
