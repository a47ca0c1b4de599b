import Reconcile.Code.Basic
import Reconcile.Proofs.Text.Words

/-!
# Reading lines back

Emitted code is one text. Statements about it speak of its lines, so the lines are read back
from the text alone: it is cut at its line ends, and the tabs at the front of a line are its
level. Reading gives back exactly the lines that were written (`readAll_write`), provided that
no line holds a line end or starts with a tab.
-/

namespace Reconcile

namespace Line

/-- The line that a text without line ends stands for. -/
def ofText (text : String) : Line :=
  ⟨(text.toList.takeWhile (· == '\t')).length, String.ofList (text.toList.dropWhile (· == '\t'))⟩

/-- The lines of a text. What stands behind the last line end is no line. -/
def readAll (text : String) : List Line :=
  (Text.split '\n' text).dropLast.map ofText

/-- The empty line. -/
def blank : Line := ⟨0, ""⟩

/-- Whether the text of a line stays within the line and behind its tabs. -/
def IsPlain (line : Line) : Prop :=
  '\n' ∉ line.text.toList ∧ line.text.toList.head? ≠ some '\t'

theorem isPlain_blank : blank.IsPlain := by
  simp [IsPlain, blank]

/-- The line without its end. -/
def letters (line : Line) : List Char :=
  List.replicate line.level '\t' ++ line.text.toList

theorem toList_render (line : Line) : line.render.toList = line.letters ++ ['\n'] := by
  simp [render, indentation, letters]

theorem newline_not_mem_letters {line : Line} (plain : line.IsPlain) :
    '\n' ∉ line.letters := by
  rw [letters, List.mem_append, not_or]
  refine ⟨?_, plain.1⟩
  intro membership
  have tab := List.eq_of_mem_replicate membership
  exact absurd tab (by decide)

theorem ofText_letters {line : Line} (plain : line.IsPlain) :
    ofText (String.ofList line.letters) = line := by
  rcases line with ⟨level, text⟩
  have noTab : ∀ first rest, text.toList = first :: rest → first ≠ '\t' := by
    intro first rest found tab
    apply plain.2
    simp [found, tab]
  have behind : text.toList.dropWhile (· == '\t') = text.toList := by
    cases found : text.toList with
    | nil => rfl
    | cons first rest =>
        rw [List.dropWhile_cons_of_neg (by simpa using noTab first rest found)]
  have front : text.toList.takeWhile (· == '\t') = [] := by
    cases found : text.toList with
    | nil => rfl
    | cons first rest =>
        rw [List.takeWhile_cons_of_neg (by simpa using noTab first rest found)]
  have tabs : ∀ tab ∈ List.replicate level '\t', (tab == '\t') = true := by
    intro tab membership
    simpa using List.eq_of_mem_replicate membership
  simp [ofText, letters, List.takeWhile_append_of_pos tabs, List.dropWhile_append_of_pos tabs,
    behind, front]

end Line

namespace Page

theorem toList_write (page : Page) (lines : List Line) :
    (page.write lines).text.toList =
      page.text.toList ++ lines.flatMap (fun line => line.letters ++ ['\n']) := by
  induction lines generalizing page with
  | nil => simp
  | cons line rest ih =>
      rw [write_cons, ih, append, String.toList_append, Line.toList_render, List.flatMap_cons,
        List.append_assoc]

end Page

namespace Line

theorem pieces_letters {lines : List Line} (plain : ∀ line ∈ lines, line.IsPlain) :
    Text.pieces '\n' (lines.flatMap (fun line => line.letters ++ ['\n'])) =
      lines.map letters ++ [[]] := by
  induction lines with
  | nil => rfl
  | cons line rest ih =>
      rw [List.flatMap_cons, List.append_assoc, List.singleton_append,
        Text.pieces_append_separator (newline_not_mem_letters (plain line List.mem_cons_self)),
        ih (fun other membership => plain other (List.mem_cons_of_mem _ membership)),
        List.map_cons, List.cons_append]

theorem readAll_write {lines : List Line} (plain : ∀ line ∈ lines, line.IsPlain) :
    readAll (Page.empty.write lines).text = lines := by
  have letters := Page.toList_write Page.empty lines
  rw [readAll, Text.split, letters]
  simp only [Page.empty, String.toList_empty, List.nil_append, pieces_letters plain,
    List.map_append, List.map_cons, List.map_nil, List.dropLast_concat, List.map_map]
  have same : ∀ line ∈ lines, (ofText ∘ String.ofList ∘ Line.letters) line = line := by
    intro line membership
    exact ofText_letters (plain line membership)
  rw [List.map_congr_left same, List.map_id']

end Line

namespace Code

/-- The text of code behind an empty line is the text of its lines and the empty one. -/
theorem renderBehindBlank_eq (codes : List Code) (level : Nat) :
    renderBehindBlank codes level =
      (Page.empty.write (Line.blank :: linesOf codes level)).text := by
  rfl

theorem readAll_renderBehindBlank {codes : List Code} {level : Nat}
    (plain : ∀ line ∈ linesOf codes level, line.IsPlain) :
    Line.readAll (renderBehindBlank codes level) = Line.blank :: linesOf codes level := by
  rw [renderBehindBlank_eq]
  apply Line.readAll_write
  intro line membership
  rcases List.mem_cons.mp membership with rfl | inCode
  · exact Line.isPlain_blank
  · exact plain line inCode

end Code

end Reconcile
