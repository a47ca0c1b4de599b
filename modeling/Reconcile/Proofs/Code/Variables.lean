import Reconcile.Code.Access
import Reconcile.Proofs.Code.Nesting
import Reconcile.Proofs.Code.Terms

/-!
# Variables of loops

The names in a line are its words that neither stand in a text nor behind a dot. A line that starts
with `for` declares the names in front of its colon for the lines of the block that it opens. From
the lines in order it is told whether a variable is used where it is declared only, whether the
loops around a line declare it once, and whether it is used at all (`Code.IsScoped`). Emitted code
is laid out from a tree, and what holds for the parts of the tree holds for its lines
(`Code.isScoped_render`).
-/

namespace Reconcile

/-- Whether a text can neither end a line nor open or close a block. -/
def Text.IsCalm (text : String) : Prop :=
  ∀ letter ∈ text.toList, letter ∉ ['\n', '\t', '\x7b', '\x7d']

instance (text : String) : Decidable (Text.IsCalm text) :=
  List.decidableBAll (fun letter => letter ∉ ['\n', '\t', '\x7b', '\x7d']) text.toList

namespace Text.IsCalm

variable {text left right : String}

theorem append_iff : IsCalm (left ++ right) ↔ IsCalm left ∧ IsCalm right := by
  simp only [IsCalm, String.toList_append, List.forall_mem_append]

theorem append (leftCalm : IsCalm left) (rightCalm : IsCalm right) : IsCalm (left ++ right) :=
  append_iff.mpr ⟨leftCalm, rightCalm⟩

theorem of_isWhole (whole : Term.IsWhole text) : IsCalm text := by
  intro letter isLetter strange
  have inside := whole letter isLetter
  simp only [List.mem_cons, List.not_mem_nil, or_false] at strange
  rcases strange with rfl | rfl | rfl | rfl <;> exact absurd inside (by decide)

theorem of_isDotted (dotted : IsDotted text) : IsCalm text :=
  .of_isWhole (Term.isWhole_of_isDotted dotted)

theorem not_mem (calm : IsCalm text) {letter : Char}
    (strange : letter ∈ ['\n', '\t', '\x7b', '\x7d']) : letter ∉ text.toList :=
  fun isLetter => calm letter isLetter strange

theorem head?_ne (calm : IsCalm text) {letter : Char}
    (strange : letter ∈ ['\n', '\t', '\x7b', '\x7d']) : text.toList.head? ≠ some letter :=
  fun isHead => calm.not_mem strange (List.mem_of_mem_head? isHead)

theorem closes (calm : IsCalm text) : Line.closes text = false := by
  simpa [Line.closes] using calm.head?_ne (by decide)

theorem opens (calm : IsCalm text) : Line.opens text = false := by
  have noBrace : '\x7b' ∉ text.toList := calm.not_mem (by decide)
  simp only [Line.opens, beq_eq_false_iff_ne, ne_eq]
  exact fun isLast => noBrace (List.mem_of_mem_getLast? isLast)

theorem isPlain (calm : IsCalm text) : Line.IsPlain ⟨0, text⟩ :=
  ⟨calm.not_mem (by decide), calm.head?_ne (by decide)⟩

/-- The head of a text that is followed by an opening brace. -/
theorem head?_header (calm : IsCalm text) {letter : Char}
    (strange : letter ∈ ['\n', '\t', '\x7b', '\x7d']) :
    (text ++ " \x7b").toList.head? ≠ some letter := by
  rw [String.toList_append, List.head?_append]
  cases head : text.toList.head? with
  | none =>
      rintro ⟨⟩
      exact absurd strange (by decide)
  | some first =>
      rw [Option.some_or]
      exact head ▸ calm.head?_ne strange

theorem closes_header (calm : IsCalm text) : Line.closes (text ++ " \x7b") = false := by
  simpa [Line.closes] using calm.head?_header (by decide)

theorem isPlain_header (calm : IsCalm text) : Line.IsPlain ⟨0, text ++ " \x7b"⟩ := by
  refine ⟨?_, calm.head?_header (by decide)⟩
  rw [String.toList_append, List.mem_append, not_or]
  exact ⟨calm.not_mem (by decide), by decide⟩

theorem join {parts : List String} (each : ∀ part ∈ parts, IsCalm part) :
    IsCalm (String.join parts) := by
  induction parts with
  | nil => decide
  | cons part rest ih =>
      rcases List.forall_mem_cons.mp each with ⟨first, others⟩
      rw [String.join_cons]
      exact first.append (ih others)

theorem intercalate {glue : String} {parts : List String} (glueCalm : IsCalm glue)
    (each : ∀ part ∈ parts, IsCalm part) : IsCalm (glue.intercalate parts) := by
  induction parts with
  | nil => simp [IsCalm]
  | cons part rest ih =>
      rcases List.forall_mem_cons.mp each with ⟨first, others⟩
      cases rest with
      | nil => simpa using first
      | cons next later =>
          rw [String.intercalate_cons_cons]
          exact (first.append glueCalm).append (ih others)

end Text.IsCalm

namespace Line

/-! ### Names in a line -/

/-- What a word in a line is: a name, a member that is selected, or a part of a text. -/
inductive Context where
  | name
  | member
  | text
  deriving DecidableEq, Repr

namespace Context

/-- What the next word is behind a letter that is none of a word. -/
def behind (letter : Char) : Context :=
  if letter = '"' then .text else if letter = '.' then .member else .name

end Context

/-- A word that has come to its end, if it is a name. -/
def ended (context : Context) (word : List Char) : List String :=
  if context = .name ∧ word ≠ [] then [String.ofList word] else []

/-- The names in letters, given a word that has been begun. -/
def gather (context : Context) (word : List Char) : List Char → List String
  | [] => ended context word
  | letter :: rest =>
      if context = .text then gather (if letter = '"' then .name else .text) [] rest
      else if Text.isWordLetter letter then gather context (word ++ [letter]) rest
      else ended context word ++ gather (.behind letter) [] rest

/-- The names in letters. -/
def namesIn (letters : List Char) : List String :=
  gather .name [] letters

/-- Whether a line is the header of a loop. -/
def isLoop (text : String) : Bool :=
  ['f', 'o', 'r', ' '].isPrefixOf text.toList

/-- The variables that a line declares. A blank declares none. -/
def declares (text : String) : List String :=
  if isLoop text then
    (namesIn ((text.toList.drop 4).takeWhile (· != ':'))).filter (· != "_")
  else []

/-- The names that a line uses. -/
def uses (text : String) : List String :=
  if isLoop text then namesIn (text.toList.dropWhile (· != ':')) else namesIn text.toList

example : declares "for _, f1iter := range f0iter.Zones \x7b" = ["f1iter"] ∧
    uses "for _, f1iter := range f0iter.Zones \x7b" = ["range", "f0iter"] ∧
    uses "ko.Zones[f0idx].IDs = append(f0iter.IDs, \"f2iter\")" =
      ["ko", "f0idx", "append", "f0iter"] := by
  decide

variable {text : String} {letters word rest : List Char} {letter : Char} {context : Context}

theorem isLoop_of_head (other : text.toList.head? ≠ some 'f') : isLoop text = false := by
  rw [← Bool.not_eq_true, isLoop, List.isPrefixOf_iff_prefix]
  rintro ⟨rest, isText⟩
  rw [← isText] at other
  exact other rfl

theorem gather_append (isWord : Text.IsWord text) (noText : context ≠ .text) :
    gather context word (text.toList ++ rest) = gather context (word ++ text.toList) rest := by
  have general : ∀ letters, (∀ letter ∈ letters, Text.isWordLetter letter = true) → ∀ word,
      gather context word (letters ++ rest) = gather context (word ++ letters) rest := by
    intro letters inside
    induction letters with
    | nil => simp
    | cons letter others ih =>
        intro word
        rcases List.forall_mem_cons.mp inside with ⟨first, later⟩
        rw [List.cons_append, gather, if_neg noText, if_pos first, ih later]
        simp
  exact general text.toList isWord word

theorem gather_word (isWord : Text.IsWord text) (noText : context ≠ .text) :
    gather context word text.toList = ended context (word ++ text.toList) := by
  have scanned := @gather_append text word [] context isWord noText
  rwa [List.append_nil] at scanned

/-- A text ends at the next quote. -/
theorem gather_text (noQuote : '"' ∉ letters) :
    gather .text word (letters ++ '"' :: rest) = gather .name [] rest := by
  induction letters generalizing word with
  | nil => rfl
  | cons letter others ih =>
      rw [List.mem_cons, not_or] at noQuote
      rw [List.cons_append, gather, if_pos rfl, if_neg (Ne.symm noQuote.1), ih noQuote.2]

/-- Letters without texts are read up to a letter that is none of a word, and on from there. -/
theorem gather_cut (noQuote : '"' ∉ letters) (noText : context ≠ .text)
    (separates : Text.isWordLetter letter = false) :
    gather context word (letters ++ letter :: rest) =
      gather context word letters ++ gather (.behind letter) [] rest := by
  induction letters generalizing context word with
  | nil => simp [gather, noText, separates]
  | cons first others ih =>
      rw [List.mem_cons, not_or] at noQuote
      rw [List.cons_append, gather, gather, if_neg noText, if_neg noText]
      split
      · exact ih noQuote.2 noText
      · have behind : Context.behind first ≠ .text := by
          rw [Context.behind, if_neg (Ne.symm noQuote.1)]
          split <;> decide
        rw [ih noQuote.2 behind, List.append_assoc]

/-- Behind a dot there are members only. -/
theorem gather_member (dotted : Text.IsDotted text) : gather .member word text.toList = [] := by
  have general : ∀ letters : List Char,
      (∀ letter ∈ letters, Text.isWordLetter letter = true ∨ letter = '.') →
        ∀ word, gather .member word letters = [] := by
    intro letters inside
    induction letters with
    | nil => exact fun _ => rfl
    | cons letter others ih =>
        intro word
        rcases List.forall_mem_cons.mp inside with ⟨first, later⟩
        rw [gather, if_neg (by decide)]
        rcases first with isWord | rfl
        · rw [if_pos isWord, ih later]
        · exact ih later []
  exact general text.toList dotted word

end Line

namespace Access

/-- The names in an expression. -/
def names : Access → List String
  | .root text => Line.namesIn text.toList
  | .member of _ => of.names
  | .index of position => of.names ++ [position]

/-- Whether an expression is put together from words, and its root from words and dots. -/
def IsPlain : Access → Prop
  | .root text => Text.IsDotted text
  | .member of name => of.IsPlain ∧ Text.IsWord name
  | .index of position => of.IsPlain ∧ Text.IsWord position ∧ position ≠ ""

theorem IsPlain.member {access : Access} (plain : access.IsPlain) {name : String}
    (isWord : Text.IsWord name) : (access.member name).IsPlain :=
  ⟨plain, isWord⟩

theorem IsPlain.isWhole : (access : Access) → access.IsPlain → Term.IsWhole access.text
  | .root _, plain => Term.isWhole_of_isDotted plain
  | .member of name, ⟨plain, isWord⟩ =>
      ((IsPlain.isWhole of plain).append (by decide)).append (Term.isWhole_of_isWord isWord)
  | .index of position, ⟨plain, isWord, _⟩ =>
      (((IsPlain.isWhole of plain).append (by decide)).append
        (Term.isWhole_of_isWord isWord)).append (by decide)

theorem IsPlain.calm {access : Access} (plain : access.IsPlain) : Text.IsCalm access.text :=
  .of_isWhole (isWhole access plain)

theorem IsPlain.along {access : Access} (plain : access.IsPlain) {path : List String}
    (words : ∀ name ∈ path, Text.IsWord name) : ∀ step ∈ access.along path, step.IsPlain := by
  induction path generalizing access with
  | nil => exact fun _ isStep => absurd isStep List.not_mem_nil
  | cons name rest ih =>
      rcases List.forall_mem_cons.mp words with ⟨isWord, others⟩
      have whole : (access.member name).IsPlain := ⟨plain, isWord⟩
      exact List.forall_mem_cons.mpr ⟨whole, ih whole others⟩

theorem IsPlain.noQuote {access : Access} (plain : access.IsPlain) : '"' ∉ access.text.toList :=
  (isWhole access plain).not_mem (by decide)

open Line in
theorem names_eq : (access : Access) → access.IsPlain → namesIn access.text.toList = access.names
  | .root _, _ => rfl
  | .member of name, ⟨plain, isWord⟩ => by
      have cut : (of.member name).text.toList = of.text.toList ++ '.' :: name.toList := by
        simp [text]
      rw [cut, namesIn, gather_cut plain.noQuote (by decide) (by decide), ← namesIn,
        names_eq of plain, gather_word isWord (by decide)]
      simp [names, ended, Context.behind]
  | .index of position, ⟨plain, isWord, nonempty⟩ => by
      have cut : (of.index position).text.toList =
          of.text.toList ++ '[' :: (position.toList ++ [']']) := by
        simp [text]
      have noQuote : '"' ∉ position.toList := isWord.not_mem (by decide)
      rw [cut, namesIn, gather_cut plain.noQuote (by decide) (by decide), ← namesIn,
        names_eq of plain, gather_cut noQuote (by decide) (by decide),
        gather_word isWord (by decide)]
      simp [names, ended, gather, Context.behind, nonempty]

open Line in
/-- Behind an expression, reading goes on at the letter that ends it. -/
theorem IsPlain.gather_text {access : Access} (plain : access.IsPlain) {letter : Char}
    (separates : Text.isWordLetter letter = false) (rest : List Char) :
    gather .name [] (access.text.toList ++ letter :: rest) =
      access.names ++ gather (.behind letter) [] rest := by
  rw [gather_cut plain.noQuote (by decide) separates, ← namesIn, names_eq access plain]

end Access

/-! ### Scopes -/

namespace Line

/-- The variables that blocks declare. -/
def declared (blocks : List String) : List String :=
  blocks.flatMap declares

/-- Whether variables among names are known from outside or declared by the blocks around them. -/
def Bound (isVariable : String → Bool) (given blocks names : List String) : Prop :=
  ∀ name ∈ names, isVariable name = true → name ∈ given ∨ name ∈ declared blocks

section

variable {isVariable : String → Bool} {given blocks : List String}

@[simp]
theorem bound_nil : Bound isVariable given blocks [] :=
  fun _ isName => absurd isName List.not_mem_nil

@[simp]
theorem bound_cons {name : String} {names : List String} :
    Bound isVariable given blocks (name :: names) ↔
      (isVariable name = true → name ∈ given ∨ name ∈ declared blocks) ∧
        Bound isVariable given blocks names :=
  List.forall_mem_cons

@[simp]
theorem bound_append {left right : List String} :
    Bound isVariable given blocks (left ++ right) ↔
      Bound isVariable given blocks left ∧ Bound isVariable given blocks right :=
  List.forall_mem_append

theorem bound_of_forall {names : List String} (others : ∀ name ∈ names, isVariable name = false) :
    Bound isVariable given blocks names := by
  intro name isName isTrue
  simp [others name isName] at isTrue

theorem bound_flatMap {α : Type} {items : List α} {names : α → List String}
    (each : ∀ item ∈ items, Bound isVariable given blocks (names item)) :
    Bound isVariable given blocks (items.flatMap names) := by
  intro name isName
  rcases List.mem_flatMap.mp isName with ⟨item, isItem, inNames⟩
  exact each item isItem name inNames

end

/-- Whether a line and the blocks that it stands in declare no variable twice. -/
def Apart (blocks : List String) (text : String) : Prop :=
  (declares text ++ declared blocks).Nodup

/-- Whether a line stays in the line and fits in with the variables of the blocks around it. -/
structure Fits (isVariable : String → Bool) (given blocks : List String) (text : String) :
    Prop where
  plain : IsPlain ⟨0, text⟩
  bound : Bound isVariable given blocks (uses text)
  apart : Apart blocks text

/-- The lines of a block, given the number of blocks that are open in front of them. -/
def body (depth : Nat) : List Line → List Line
  | [] => []
  | line :: rest =>
      if depthAt depth line.text = 0 then []
      else line :: body (depthBehind depth line.text) rest

section

variable {depth level : Nat} {text : String} {rest : List Line}

theorem body_flat (closesNot : closes text = false) (opensNot : opens text = false) :
    body (depth + 1) (⟨level, text⟩ :: rest) = ⟨level, text⟩ :: body (depth + 1) rest := by
  simp [body, depthAt, depthBehind, closesNot, opensNot]

theorem body_header {header : String} (closesNot : closes (header ++ " \x7b") = false) :
    body (depth + 1) (⟨level, header ++ " \x7b"⟩ :: rest) =
      ⟨level, header ++ " \x7b"⟩ :: body (depth + 1 + 1) rest := by
  simp [body, depthAt, depthBehind, closesNot, Code.opens_header]

theorem closes_otherwise (otherwise : String) :
    closes ("\x7d " ++ otherwise ++ " \x7b") = true := by
  simp [closes]

theorem body_otherwise (otherwise : String) :
    body (depth + 1 + 1) (⟨level, "\x7d " ++ otherwise ++ " \x7b"⟩ :: rest) =
      ⟨level, "\x7d " ++ otherwise ++ " \x7b"⟩ :: body (depth + 1 + 1) rest := by
  rw [body, depthBehind, Code.opens_header, depthAt, closes_otherwise]
  simp

theorem body_end : body (depth + 1 + 1) (⟨level, "\x7d"⟩ :: rest) =
    ⟨level, "\x7d"⟩ :: body (depth + 1) rest := by
  have closing : closes "\x7d" = true := by decide
  have opensNot : opens "\x7d" = false := by decide
  simp [body, depthAt, depthBehind, closing, opensNot]

theorem body_closed (closing : closes text = true) : body 1 (⟨level, text⟩ :: rest) = [] := by
  simp [body, depthAt, closing]

end

/-- Whether each variable is used by a line of the block whose header declares it. -/
def Used : List Line → Prop
  | [] => True
  | line :: rest =>
      (∀ name ∈ declares line.text, ∃ other ∈ body 1 rest, name ∈ uses other.text) ∧ Used rest

end Line

/--
Whether the variables in a text are used inside the loops that declare them only, all of them are
used, and no loop declares a variable of a loop around it.
-/
structure Code.IsScoped (isVariable : String → Bool) (given : List String) (text : String) :
    Prop where
  bound : Line.Hold (fun blocks line => Line.Bound isVariable given blocks (Line.uses line)) []
    (Line.readAll text)
  apart : Line.Hold Line.Apart [] (Line.readAll text)
  used : Line.Used (Line.readAll text)

namespace Code

open Line

/-- Whether a line of several pieces of code uses a name. -/
def Mentions (codes : List Code) (name : String) : Prop :=
  ∀ level, ∃ line ∈ linesOf codes level, name ∈ uses line.text

mutual

/-- Whether each variable that a piece of code declares is used in the block that it is for. -/
def IsUsed : Code → Prop
  | .line text => declares text = []
  | .block header body =>
      (∀ name ∈ declares (header ++ " \x7b"), Mentions body name) ∧ AreUsed body
  | .branch header body _ alternative =>
      ((∀ name ∈ declares (header ++ " \x7b"), Mentions body name) ∧ AreUsed body) ∧
        AreUsed alternative
  | .titled title body => declares title = [] ∧ AreUsed body

/-- Whether each variable that several pieces of code declare is used in its block. -/
def AreUsed : List Code → Prop
  | [] => True
  | code :: rest => code.IsUsed ∧ AreUsed rest

end

variable {property : List String → String → Prop}

mutual

/-- The lines of a piece of code belong to the block that they stand in as a whole. -/
theorem body_lines {blocks : List String} : (code : Code) → (depth level : Nat) →
    code.Holds property blocks → ∀ rest, Line.body (depth + 1) (code.lines level ++ rest) =
      code.lines level ++ Line.body (depth + 1) rest
  | .line _, _, _, ⟨closesNot, opensNot, _⟩, rest => by
      rw [lines, List.singleton_append, body_flat closesNot opensNot, List.singleton_append]
  | .block header body, depth, level, ⟨closesNot, _, inside, _⟩, rest => by
      simp only [lines, List.cons_append, List.append_assoc, List.nil_append,
        body_header closesNot, body_linesOf body (depth + 1) (level + 1) inside, body_end]
  | .branch header body otherwise alternative, depth, level,
      ⟨closesNot, _, inside, _, otherInside, _⟩, rest => by
      simp only [lines, List.cons_append, List.append_assoc, List.nil_append,
        body_header closesNot, body_linesOf body (depth + 1) (level + 1) inside, body_otherwise,
        body_linesOf alternative (depth + 1) (level + 1) otherInside, body_end]
  | .titled _ body, depth, level, ⟨closesNot, opensNot, _, inside⟩, rest => by
      rw [lines, List.cons_append, body_flat closesNot opensNot,
        body_linesOf body depth (level + 1) inside, List.cons_append]

theorem body_linesOf {blocks : List String} : (codes : List Code) → (depth level : Nat) →
    HoldsOf property blocks codes → ∀ rest,
      Line.body (depth + 1) (linesOf codes level ++ rest) =
        linesOf codes level ++ Line.body (depth + 1) rest
  | [], _, _, _, _ => by simp [linesOf]
  | code :: others, depth, level, ⟨holds, othersHold⟩, rest => by
      rw [linesOf, List.append_assoc, body_lines code depth level holds,
        body_linesOf others depth level othersHold, List.append_assoc]

end

theorem declares_end : declares "\x7d" = [] := by decide

theorem declares_otherwise (otherwise : String) :
    declares ("\x7d " ++ otherwise ++ " \x7b") = [] := by
  simp [declares, isLoop]

mutual

/-- Where each variable of the code is used, this does not depend on the lines behind it. -/
theorem used_lines {blocks : List String} : (code : Code) → (level : Nat) →
    code.Holds property blocks → code.IsUsed → ∀ {rest}, Line.Used rest →
      Line.Used (code.lines level ++ rest)
  | .line text, _, _, used, rest, later => by
      have noneDeclared : declares text = [] := used
      refine ⟨?_, later⟩
      rw [noneDeclared]
      exact fun _ declared => absurd declared List.not_mem_nil
  | .block header body, level, ⟨closesNot, _, inside, _⟩, ⟨mentioned, used⟩, rest, later => by
      have ends : Line.Used (⟨level, "\x7d"⟩ :: rest) := ⟨by simp [declares_end], later⟩
      have all := used_linesOf body (level + 1) inside used ends
      simp only [lines, List.cons_append, List.append_assoc, List.nil_append]
      refine ⟨?_, all⟩
      rw [body_linesOf body 0 (level + 1) inside, body_closed (by decide), List.append_nil]
      exact fun name declared => mentioned name declared (level + 1)
  | .branch header body otherwise alternative, level,
      ⟨closesNot, _, inside, _, otherInside, _⟩, ⟨⟨mentioned, used⟩, otherUsed⟩, rest, later => by
      have ends : Line.Used (⟨level, "\x7d"⟩ :: rest) := ⟨by simp [declares_end], later⟩
      have second := used_linesOf alternative (level + 1) otherInside otherUsed ends
      have middle : Line.Used (⟨level, "\x7d " ++ otherwise ++ " \x7b"⟩ ::
          (linesOf alternative (level + 1) ++ ⟨level, "\x7d"⟩ :: rest)) :=
        ⟨by simp [declares_otherwise], second⟩
      have all := used_linesOf body (level + 1) inside used middle
      simp only [lines, List.cons_append, List.append_assoc, List.nil_append]
      refine ⟨?_, all⟩
      rw [body_linesOf body 0 (level + 1) inside, body_closed (closes_otherwise otherwise),
        List.append_nil]
      exact fun name declared => mentioned name declared (level + 1)
  | .titled _ body, level, ⟨_, _, _, inside⟩, ⟨noneDeclared, used⟩, rest, later => by
      refine ⟨?_, used_linesOf body (level + 1) inside used later⟩
      rw [noneDeclared]
      exact fun _ declared => absurd declared List.not_mem_nil

theorem used_linesOf {blocks : List String} : (codes : List Code) → (level : Nat) →
    HoldsOf property blocks codes → AreUsed codes → ∀ {rest}, Line.Used rest →
      Line.Used (linesOf codes level ++ rest)
  | [], _, _, _, _, later => by simpa [linesOf] using later
  | code :: others, level, ⟨holds, othersHold⟩, ⟨used, othersUsed⟩, rest, later => by
      rw [linesOf, List.append_assoc]
      exact used_lines code level holds used (used_linesOf others level othersHold othersUsed later)

end

/-- Whether code fits in line by line, and each of its variables is used in the block it is for. -/
structure FitsIn (isVariable : String → Bool) (given blocks : List String) (codes : List Code) :
    Prop where
  fits : HoldsOf (Line.Fits isVariable given) blocks codes
  untitled : AreUntitled codes
  used : AreUsed codes

variable {isVariable : String → Bool} {given blocks : List String} {codes : List Code}

/-- Code that fits in is read from its text as the lines that it is laid out in. -/
theorem readAll_render {level : Nat} (fitsIn : FitsIn isVariable given [] codes) :
    Line.readAll (render codes level) = linesOf codes level := by
  have hold := (hold_linesOf codes level fitsIn.fits).1
  apply readAll_write
  intro line isLine
  rcases hold.of_mem isLine with ⟨_, fits⟩
  exact fits.plain

/-- Code that fits in is nested and scoped. -/
theorem isScoped_render {level : Nat} (fitsIn : FitsIn isVariable given [] codes) :
    IsNested level (render codes level) ∧ IsScoped isVariable given (render codes level) := by
  have isRead : Line.readAll (render codes level) = linesOf codes level := readAll_render fitsIn
  rcases fitsIn with ⟨fits, untitled, used⟩
  have last : Nested level 0 [] := rfl
  have nested := nested_linesOf codes 0 fits untitled last
  have lastUsed : Line.Used [] := trivial
  have allUsed := used_linesOf codes level fits used lastUsed
  have bound := hold_linesOf codes level (HoldsOf.mono (fun _ _ fit => fit.bound) codes fits)
  have apart := hold_linesOf codes level (HoldsOf.mono (fun _ _ fit => fit.apart) codes fits)
  refine ⟨isNested_of_lines rfl isRead (by simpa using nested), ?_, ?_, ?_⟩
  · rw [isRead]
    exact bound.1
  · rw [isRead]
    exact apart.1
  · rw [isRead]
    simpa using allUsed

/-! ### Parts of code -/

theorem fitsIn_nil : FitsIn isVariable given blocks [] :=
  ⟨trivial, trivial, trivial⟩

theorem FitsIn.append {others : List Code} (fitsIn : FitsIn isVariable given blocks codes)
    (othersFit : FitsIn isVariable given blocks others) :
    FitsIn isVariable given blocks (codes ++ others) := by
  induction codes with
  | nil => exact othersFit
  | cons code rest ih =>
      rcases fitsIn with ⟨⟨fits, restFits⟩, ⟨untitled, restUntitled⟩, ⟨used, restUsed⟩⟩
      rcases ih ⟨restFits, restUntitled, restUsed⟩ with ⟨allFit, allUntitled, allUsed⟩
      exact ⟨⟨fits, allFit⟩, ⟨untitled, allUntitled⟩, ⟨used, allUsed⟩⟩

theorem fitsIn_flatMap {α : Type} {items : List α} {code : α → List Code}
    (each : ∀ item ∈ items, FitsIn isVariable given blocks (code item)) :
    FitsIn isVariable given blocks (items.flatMap code) := by
  induction items with
  | nil => exact fitsIn_nil
  | cons item rest ih =>
      rcases List.forall_mem_cons.mp each with ⟨first, others⟩
      rw [List.flatMap_cons]
      exact first.append (ih others)

theorem declares_flat {text : String} (noLoop : isLoop text = false) : declares text = [] := by
  rw [declares, noLoop, if_neg Bool.false_ne_true]

theorem declared_flat {header : String} (noLoop : isLoop header = false) :
    declared (header :: blocks) = declared blocks := by
  rw [declared, List.flatMap_cons, declares_flat noLoop, List.nil_append, declared]

/-- A line that declares, opens and closes nothing. -/
theorem fitsIn_statement {text : String} (closesNot : closes text = false)
    (opensNot : opens text = false) (plain : Line.IsPlain ⟨0, text⟩) (noLoop : isLoop text = false)
    (apart : (declared blocks).Nodup) (bound : Bound isVariable given blocks (uses text)) :
    FitsIn isVariable given blocks [.line text] := by
  have isApart : Apart blocks text := by
    rwa [Apart, declares_flat noLoop, List.nil_append]
  exact ⟨⟨⟨closesNot, opensNot, plain, bound, isApart⟩, trivial⟩, ⟨trivial, trivial⟩,
    ⟨declares_flat noLoop, trivial⟩⟩

theorem fitsIn_line {text : String} (calm : Text.IsCalm text) (noLoop : isLoop text = false)
    (apart : (declared blocks).Nodup) (bound : Bound isVariable given blocks (uses text)) :
    FitsIn isVariable given blocks [.line text] :=
  fitsIn_statement calm.closes calm.opens calm.isPlain noLoop apart bound

theorem fits_end (apart : (declared blocks).Nodup) : Line.Fits isVariable given blocks "\x7d" where
  plain := by simp [IsPlain]
  bound := by
    have noUse : uses "\x7d" = [] := by decide
    rw [noUse]
    exact fun _ isName => absurd isName List.not_mem_nil
  apart := by
    rwa [Apart, declares_end, List.nil_append]

/-- A block whose variables are used in it. -/
theorem fitsIn_block {header : String} (calm : Text.IsCalm header)
    (apart : Apart blocks (header ++ " \x7b"))
    (bound : Bound isVariable given blocks (uses (header ++ " \x7b")))
    (inside : FitsIn isVariable given ((header ++ " \x7b") :: blocks) codes)
    (mentioned : ∀ name ∈ declares (header ++ " \x7b"), Mentions codes name) :
    FitsIn isVariable given blocks [.block header codes] := by
  have outer : (declared blocks).Nodup := (List.nodup_append.mp apart).2.1
  refine ⟨⟨⟨calm.closes_header, ⟨calm.isPlain_header, bound, apart⟩, inside.fits,
    fits_end outer⟩, trivial⟩, ⟨inside.untitled, trivial⟩, ⟨⟨mentioned, inside.used⟩, trivial⟩⟩

/-- A block that declares nothing. -/
theorem fitsIn_flat {header : String} (calm : Text.IsCalm header)
    (noLoop : isLoop (header ++ " \x7b") = false) (apart : (declared blocks).Nodup)
    (bound : Bound isVariable given blocks (uses (header ++ " \x7b")))
    (inside : FitsIn isVariable given ((header ++ " \x7b") :: blocks) codes) :
    FitsIn isVariable given blocks [.block header codes] := by
  refine fitsIn_block calm ?_ bound inside ?_
  · rwa [Apart, declares_flat noLoop, List.nil_append]
  · rw [declares_flat noLoop]
    exact fun _ isName => absurd isName List.not_mem_nil

/-- A statement in a block that declares nothing. -/
theorem fitsIn_test {header text : String} (apart : (declared blocks).Nodup)
    (headerCalm : Text.IsCalm header) (headerFlat : isLoop (header ++ " \x7b") = false)
    (headerBound : Bound isVariable given blocks (uses (header ++ " \x7b")))
    (calm : Text.IsCalm text) (flat : isLoop text = false)
    (bound : Bound isVariable given blocks (uses text)) :
    FitsIn isVariable given blocks [.block header [.line text]] := by
  have same := @declared_flat blocks _ headerFlat
  apply fitsIn_flat headerCalm headerFlat apart headerBound
  apply fitsIn_line calm flat
  · rwa [same]
  · rwa [Bound, same]

/-! ### Uses of names -/

variable {name text header : String} {others : List Code}

theorem mentions_line (isUsed : name ∈ uses text) : Mentions [.line text] name := by
  intro level
  exact ⟨⟨level, text⟩, List.mem_cons_self, isUsed⟩

theorem mentions_header (isUsed : name ∈ uses (header ++ " \x7b")) :
    Mentions [.block header codes] name := by
  intro level
  exact ⟨⟨level, header ++ " \x7b"⟩, List.mem_cons_self, isUsed⟩

theorem Mentions.block (mentioned : Mentions codes name) : Mentions [.block header codes] name := by
  intro level
  rcases mentioned (level + 1) with ⟨line, isLine, isUsed⟩
  refine ⟨line, ?_, isUsed⟩
  simp [linesOf, lines, isLine]

theorem Mentions.append_left (mentioned : Mentions codes name) :
    Mentions (codes ++ others) name := by
  intro level
  rcases mentioned level with ⟨line, isLine, isUsed⟩
  rw [linesOf_append]
  exact ⟨line, List.mem_append_left _ isLine, isUsed⟩

theorem Mentions.append_right (mentioned : Mentions others name) :
    Mentions (codes ++ others) name := by
  intro level
  rcases mentioned level with ⟨line, isLine, isUsed⟩
  rw [linesOf_append]
  exact ⟨line, List.mem_append_right _ isLine, isUsed⟩

end Code

end Reconcile
