import Mathlib.Data.List.TakeWhile
import Reconcile.Proofs.Resource.Registry
import Reconcile.Proofs.Synced.Acceptance

/-!
# Reading accepted values

The accepted values of a condition stand as literals between braces. What is there is cut at the
commas outside of literals, and each piece is read on its own (`AcceptedKind.readList?`). This gives
the values of the condition again, whatever texts they are (`Synced.values_survive`): no letter of a
value ends its literal or the line.
-/

namespace Reconcile

/-! ### Decimals -/

namespace Decimal

/-- The value of a literal without a fraction and an exponent. -/
def whole? (decimal : Decimal) : Option Int :=
  if decimal.isWhole then
    some (if decimal.negative then -decimal.significand else decimal.significand)
  else none

theorem digitsValue_toDigits (number : Nat) : digitsValue (Nat.toDigits 10 number) = number := by
  have value := @Nat.ofDigitChars_ten_toDigits number
  rw [Nat.ofDigitChars_eq_foldl] at value
  simpa only [digitsValue, Nat.mul_comm] using value

/-- Only the digits of zero start with a zero. -/
theorem head?_toDigits {number : Nat} (positive : 0 < number) :
    (Nat.toDigits 10 number).head? ≠ some '0' := by
  induction number using Nat.strongRecOn with
  | ind number ih =>
      rcases Nat.lt_or_ge number 10 with small | large
      · have digits : ∀ digit < 10, 0 < digit → Nat.digitChar digit ≠ '0' := by decide
        rw [Nat.toDigits_of_lt_base small, List.head?_cons]
        exact fun zero => digits number small positive (Option.some.inj zero)
      · rw [Nat.toDigits_of_base_le (by decide) large,
          List.head?_append_of_ne_nil _ Nat.toDigits_ne_nil]
        exact ih (number / 10) (by omega) (by omega)

theorem isDigit_of_mem_toDigits {number : Nat} :
    ∀ digit ∈ Nat.toDigits 10 number, digit.isDigit = true := by
  intro digit isDigit
  exact Nat.isDigit_of_mem_toDigits (by decide) (by decide) isDigit

/-- A whole number is read behind the minus of a literal. -/
theorem ofLiteral?_of_splitMinus {literal : String} {negative : Bool} {number : Nat}
    (cut : splitMinus literal.toList = (negative, Nat.toDigits 10 number)) :
    ofLiteral? literal = some ⟨negative, number, 0, true⟩ := by
  have whole : (Nat.toDigits 10 number).takeWhile Char.isDigit = Nat.toDigits 10 number :=
    List.takeWhile_eq_self_iff.mpr isDigit_of_mem_toDigits
  have behind : (Nat.toDigits 10 number).dropWhile Char.isDigit = [] :=
    List.dropWhile_eq_nil_iff.mpr isDigit_of_mem_toDigits
  have canonical : (!(Nat.toDigits 10 number).isEmpty &&
      ((Nat.toDigits 10 number).length == 1 ||
        (Nat.toDigits 10 number).head? != some '0')) = true := by
    rcases Nat.eq_zero_or_pos number with rfl | positive
    · decide
    · simp [Nat.toDigits_ne_nil, head?_toDigits positive]
  have value : digitsValue (Nat.toDigits 10 number ++ []) = number := by
    rw [List.append_nil, digitsValue_toDigits]
  rw [ofLiteral?, cut]
  dsimp only
  rw [whole, behind, canonical]
  change some (⟨negative, digitsValue (Nat.toDigits 10 number ++ []), 0, true⟩ : Decimal) = _
  rw [value]

theorem ofLiteral?_toString (number : Nat) :
    ofLiteral? (toString number) = some ⟨false, number, 0, true⟩ := by
  apply ofLiteral?_of_splitMinus
  rw [Nat.toString_eq_ofList_toDigits, String.toList_ofList]
  cases digits : Nat.toDigits 10 number with
  | nil => rfl
  | cons first rest =>
      have isDigit := isDigit_of_mem_toDigits first (by rw [digits]; exact List.mem_cons_self)
      rw [splitMinus]
      intro others same
      cases same
      exact absurd isDigit (by decide)

theorem ofLiteral?_minus (number : Nat) :
    ofLiteral? ("-" ++ toString number) = some ⟨true, number, 0, true⟩ := by
  apply ofLiteral?_of_splitMinus
  simp [splitMinus]

theorem mem_toString {value : Int} {letter : Char} (written : letter ∈ (toString value).toList) :
    letter = '-' ∨ letter.isDigit = true := by
  cases value with
  | ofNat number =>
      change letter ∈ (toString number).toList at written
      rw [Nat.toString_eq_ofList_toDigits, String.toList_ofList] at written
      exact .inr (isDigit_of_mem_toDigits letter written)
  | negSucc number =>
      change letter ∈ ("-" ++ toString (number + 1)).toList at written
      rw [Nat.toString_eq_ofList_toDigits, String.toList_append, List.mem_append] at written
      rcases written with isMinus | isDigit
      · exact .inl (by simpa using isMinus)
      · rw [String.toList_ofList] at isDigit
        exact .inr (isDigit_of_mem_toDigits letter isDigit)

/-- A written integer is read again. -/
theorem whole?_toString (value : Int) :
    (ofLiteral? (toString value)).bind whole? = some value := by
  cases value with
  | ofNat number =>
      change (ofLiteral? (toString number)).bind whole? = _
      rw [ofLiteral?_toString]
      rfl
  | negSucc number =>
      change (ofLiteral? ("-" ++ toString (number + 1))).bind whole? = _
      rw [ofLiteral?_minus]
      rfl

end Decimal

/-! ### Texts -/

namespace Text

/-- The letter that a mark behind a backslash stands for. -/
def unescape? : Char → Option Char
  | '"' => some '"'
  | '\\' => some '\\'
  | 'n' => some '\n'
  | 't' => some '\t'
  | _ => none

/-- Reads a literal behind its opening quote. Nothing stands behind the closing one. -/
def readWithin? : List Char → Option (List Char)
  | [] => none
  | ['"'] => some []
  | '\\' :: mark :: rest => do
    let letter ← unescape? mark
    let letters ← readWithin? rest
    return letter :: letters
  | letter :: rest =>
    if letter = '"' ∨ letter = '\\' ∨ letter = '\n' then none
    else (readWithin? rest).map (letter :: ·)

/-- Reads a literal. -/
def readLiteral? (literal : String) : Option String :=
  match literal.toList with
  | '"' :: rest => (readWithin? rest).map String.ofList
  | _ => none

/-- A letter is written behind a backslash, or as itself if it can neither end a literal nor a line. -/
theorem literalEscape_cases (letter : Char) :
    (∃ mark, unescape? mark = some letter ∧ mark ≠ '\n' ∧ literalEscape letter = ['\\', mark]) ∨
      (literalEscape letter = [letter] ∧ letter ≠ '"' ∧ letter ≠ '\\' ∧ letter ≠ '\n') := by
  unfold literalEscape
  split
  · exact .inl ⟨'"', rfl, by decide, rfl⟩
  · exact .inl ⟨'\\', rfl, by decide, rfl⟩
  · exact .inl ⟨'n', rfl, by decide, rfl⟩
  · exact .inl ⟨'t', rfl, by decide, rfl⟩
  · rename_i noQuote noBackslash noNewline _
    exact .inr ⟨rfl, noQuote, noBackslash, noNewline⟩

theorem readWithin?_flatMap (letters : List Char) :
    readWithin? (letters.flatMap literalEscape ++ ['"']) = some letters := by
  induction letters with
  | nil => rfl
  | cons letter rest ih =>
      rw [List.flatMap_cons, List.append_assoc]
      rcases literalEscape_cases letter with
        ⟨mark, isMark, _, escaped⟩ | ⟨plain, noQuote, noBackslash, noNewline⟩
      · rw [escaped, List.cons_append, List.singleton_append, readWithin?, isMark, ih]
        rfl
      · rw [plain, List.singleton_append, readWithin?, ih]
        · simp [noQuote, noBackslash, noNewline]
        · simp
        · exact fun _ _ same _ => noBackslash same

theorem readLiteral?_literal (text : String) : readLiteral? (literal text) = some text := by
  simp [readLiteral?, literal, readWithin?_flatMap]

theorem newline_not_mem_flatMap (letters : List Char) :
    '\n' ∉ letters.flatMap literalEscape := by
  intro membership
  rcases List.mem_flatMap.mp membership with ⟨letter, _, inEscape⟩
  rcases literalEscape_cases letter with ⟨mark, _, noNewline, escaped⟩ | ⟨plain, _, _, noNewline⟩
  · rw [escaped] at inEscape
    simp [noNewline.symm] at inEscape
  · rw [plain] at inEscape
    exact noNewline (List.mem_singleton.mp inEscape).symm

end Text

/-! ### Lists of literals -/

/-- Where a letter stands: outside of literals, in one of them, or behind a backslash in it. -/
inductive Place where
  | between
  | within
  | escaped
  deriving DecidableEq, Repr

namespace Place

/-- The place behind a letter. -/
def after : Place → Char → Place
  | .between, letter => if letter = '"' then .within else .between
  | .within, letter =>
    if letter = '"' then .between else if letter = '\\' then .escaped else .within
  | .escaped, _ => .within

/-- Letters put in front of the first piece. -/
def attach (letters : List Char) : List (List Char) → List (List Char)
  | [] => [letters]
  | piece :: others => (letters ++ piece) :: others

/-- The pieces of a list, cut at the commas outside of literals. -/
def cut : Place → List Char → List (List Char)
  | _, [] => [[]]
  | .between, ',' :: ' ' :: rest => [] :: cut .between rest
  | place, letter :: rest => attach [letter] (cut (place.after letter) rest)

theorem attach_append (left right : List Char) (pieces : List (List Char)) :
    attach (left ++ right) pieces = attach left (attach right pieces) := by
  cases pieces <;> simp [attach]

theorem cut_ne_nil (place : Place) (letters : List Char) : cut place letters ≠ [] := by
  unfold cut
  split
  · exact List.cons_ne_nil _ _
  · exact List.cons_ne_nil _ _
  · unfold attach
    split <;> exact List.cons_ne_nil _ _

theorem attach_nil {pieces : List (List Char)} (nonempty : pieces ≠ []) :
    attach [] pieces = pieces := by
  cases pieces with
  | nil => exact absurd rfl nonempty
  | cons piece others => rfl

/-- No cut is made before a letter of a literal, and none before a letter that is no comma. -/
theorem cut_cons {place : Place} {letter : Char} (kept : place ≠ .between ∨ letter ≠ ',')
    (rest : List Char) :
    cut place (letter :: rest) = attach [letter] (cut (place.after letter) rest) := by
  rw [cut]
  rintro others isBetween rfl
  simp [isBetween] at kept

/-- Whether letters between literals are not cut. -/
def IsSolid (letters : List Char) : Prop :=
  ∀ rest, cut .between (letters ++ rest) = attach letters (cut .between rest)

theorem isSolid_of_plain {letters : List Char}
    (plain : ∀ letter ∈ letters, letter ≠ '"' ∧ letter ≠ ',') : IsSolid letters := by
  intro rest
  induction letters with
  | nil => exact (attach_nil (cut_ne_nil _ _)).symm
  | cons letter others ih =>
      rcases List.forall_mem_cons.mp plain with ⟨⟨noQuote, noComma⟩, plainOthers⟩
      rw [List.cons_append, cut_cons (.inr noComma), after, if_neg noQuote, ih plainOthers,
        ← attach_append]
      rfl

/-- The letters of a text do not end its literal. -/
theorem cut_within (letters rest : List Char) :
    cut .within (letters.flatMap Text.literalEscape ++ '"' :: rest) =
      attach (letters.flatMap Text.literalEscape ++ ['"']) (cut .between rest) := by
  induction letters with
  | nil => exact cut_cons (.inl (by decide)) rest
  | cons letter others ih =>
      rw [List.flatMap_cons, List.append_assoc, List.append_assoc, attach_append, ← ih]
      rcases Text.literalEscape_cases letter with
        ⟨mark, _, _, escaped⟩ | ⟨plain, noQuote, noBackslash, _⟩
      · rw [escaped, List.cons_append, List.singleton_append, cut_cons (.inl (by decide)),
          after, if_neg (by decide), if_pos rfl, cut_cons (.inl (by decide)), after, ← attach_append]
        rfl
      · rw [plain, List.singleton_append, cut_cons (.inl (by decide)), after, if_neg noQuote,
          if_neg noBackslash]

theorem isSolid_literal (text : String) : IsSolid (Text.literal text).toList := by
  intro rest
  rw [Text.literal, String.toList_ofList, List.cons_append, List.append_assoc,
    List.singleton_append, cut_cons (.inr (by decide)), after, if_pos rfl, cut_within,
    ← attach_append]
  rfl

/-- What does not hold a cut is found again when a list of it is cut. -/
theorem cut_intercalate {parts : List (List Char)} (nonempty : parts ≠ [])
    (solid : ∀ part ∈ parts, IsSolid part) : cut .between ([',', ' '].intercalate parts) = parts := by
  induction parts with
  | nil => exact absurd rfl nonempty
  | cons part rest ih =>
      rcases List.forall_mem_cons.mp solid with ⟨solidPart, solidRest⟩
      cases rest with
      | nil =>
          have alone := solidPart []
          rw [List.append_nil] at alone
          rw [List.intercalate_singleton, alone]
          simp [cut, attach]
      | cons next others =>
          rw [List.intercalate_cons_cons, List.append_assoc, solidPart, List.cons_append,
            List.singleton_append, cut, ih (List.cons_ne_nil _ _) solidRest, attach,
            List.append_nil]

end Place

namespace AcceptedKind

open Place

/-- Reads a literal as a value of the kind. -/
def readValue? : AcceptedKind → String → Option Value
  | .string, literal => (Text.readLiteral? literal).map .text
  | .integer, literal =>
    ((Decimal.ofLiteral? literal).bind Decimal.whole?).map (fun value => .number (.integer value))
  | .boolean, "true" => some (.boolean true)
  | .boolean, "false" => some (.boolean false)
  | .boolean, _ => none

/-- Reads literals with commas between them. -/
def readList? (kind : AcceptedKind) (text : String) : Option (List Value) :=
  ((cut .between text.toList).map String.ofList).mapM kind.readValue?

/-- Whether a literal stands for a value wherever it stands in a list. -/
structure Spells (kind : AcceptedKind) (value : Value) (literal : String) : Prop where
  solid : IsSolid literal.toList
  oneLine : '\n' ∉ literal.toList
  read : kind.readValue? literal = some value

variable {kind : AcceptedKind} {value : Value} {literal : String}

theorem spells_text (text : String) : Spells .string (.text text) (Text.literal text) where
  solid := isSolid_literal text
  oneLine := by
    have within := Text.newline_not_mem_flatMap text.toList
    rw [Text.literal, String.toList_ofList, List.mem_cons, List.mem_append, List.mem_singleton]
    simp only [within]
    decide
  read := by
    rw [readValue?, Text.readLiteral?_literal]
    rfl

theorem spells_integer (number : Int) :
    Spells .integer (.number (.integer number)) (toString number) where
  solid := by
    apply isSolid_of_plain
    intro letter written
    rcases Decimal.mem_toString written with rfl | isDigit
    · decide
    · constructor <;> (rintro rfl; exact absurd isDigit (by decide))
  oneLine := by
    intro written
    rcases Decimal.mem_toString written with isMinus | isDigit
    · exact absurd isMinus (by decide)
    · exact absurd isDigit (by decide)
  read := by
    rw [readValue?, Decimal.whole?_toString]
    rfl

theorem spells_boolean (truth : Bool) : Spells .boolean (.boolean truth) (toString truth) where
  solid := by
    have isWord : Text.IsWord (toString truth) := by cases truth <;> decide
    apply isSolid_of_plain
    intro letter isLetter
    constructor <;> (rintro rfl; exact isWord.not_mem (by decide) isLetter)
  oneLine := by
    cases truth <;> decide
  read := by
    cases truth <;> rfl

/-- Whatever literal a value is written as stands for this value. -/
theorem spells_literal? (written : kind.literal? value = some literal) :
    kind.Spells value literal := by
  have fits := isSome_literal?.mp (Option.isSome_of_eq_some written)
  cases kind with
  | string =>
      rcases fits with ⟨text, rfl⟩
      cases written
      exact spells_text text
  | integer =>
      rcases fits with ⟨number, rfl, _⟩
      rcases Option.map_eq_some_iff.mp written with ⟨value, isWord, rfl⟩
      rw [Number.signedWord?] at isWord
      split at isWord
      · cases isWord
        exact spells_integer number
      · cases isWord
  | boolean =>
      rcases fits with ⟨truth, rfl⟩
      cases written
      exact spells_boolean truth

theorem newline_not_mem_intercalate {parts : List (List Char)}
    (oneLine : ∀ part ∈ parts, '\n' ∉ part) : '\n' ∉ [',', ' '].intercalate parts := by
  induction parts with
  | nil => simp
  | cons part rest ih =>
      rcases List.forall_mem_cons.mp oneLine with ⟨first, others⟩
      cases rest with
      | nil => simpa using first
      | cons next rest =>
          rw [List.intercalate_cons_cons, List.mem_append, List.mem_append]
          simp [first, ih others]

/-- Literals of values that are written one behind the other are read as these values. -/
theorem readList?_intercalate {values : List Value} {literals : List String}
    (nonempty : values ≠ []) (spelled : List.Forall₂ kind.Spells values literals) :
    kind.readList? (", ".intercalate literals) = some values := by
  have solid : ∀ part ∈ literals.map String.toList, IsSolid part := by
    intro part isPart
    rcases List.mem_map.mp isPart with ⟨literal, isLiteral, rfl⟩
    rcases exists_left_of_mem spelled isLiteral with ⟨value, _, spells⟩
    exact spells.solid
  have someLiteral : literals.map String.toList ≠ [] := by
    have length := spelled.length_eq
    intro none
    rw [List.map_eq_nil_iff.mp none, List.length_nil, List.length_eq_zero_iff] at length
    exact nonempty length
  have pieces : cut .between (", ".intercalate literals).toList = literals.map String.toList := by
    rw [String.toList_intercalate]
    exact cut_intercalate someLiteral solid
  have same : literals.map (String.ofList ∘ String.toList) = literals := by simp
  rw [readList?, pieces, List.map_map, same]
  clear pieces same solid someLiteral nonempty
  induction spelled with
  | nil => rfl
  | cons first _ ih =>
      rw [List.mapM_cons, first.read, ih]
      rfl

end AcceptedKind

namespace ResolvedCondition

open Synced

variable {condition : ResolvedCondition} {values : List Value}

theorem spells_of_writeLiterals {text : String} {kind : AcceptedKind} {literals : List String}
    (written : writeLiterals text kind values = .ok literals) :
    List.Forall₂ kind.Spells values literals := by
  rw [writeLiterals_eq] at written
  apply (Outcome.forall₂_of_mapM_eq_ok written).imp
  intro value literal isWritten
  exact AcceptedKind.spells_literal? (orError_eq_ok isWritten)

/--
Whether code declares a variable once, in a line of its own, and what is there between the braces
is read as values of a kind.
-/
structure Declares (codes : List Code) (name : String) (kind : AcceptedKind) (values : List Value) :
    Prop where
  line : ∃ front back inner,
    codes = front ++ .line (name ++ " := []" ++ kind.toScalarKind.goElementType ++ "\x7b" ++
      inner ++ "\x7d") :: back ∧
    (∀ piece ∈ front ++ back, ∃ header body, piece = .block header body) ∧
    kind.readList? inner = some values ∧ '\n' ∉ inner.toList

theorem declares_code (nonempty : values ≠ [])
    (spelled : List.Forall₂ condition.kind.Spells values condition.literals)
    (object name : String) :
    Declares (condition.code object name) name condition.kind values := by
  have oneLine : '\n' ∉ (", ".intercalate condition.literals).toList := by
    rw [String.toList_intercalate]
    apply AcceptedKind.newline_not_mem_intercalate
    intro part isPart
    rcases List.mem_map.mp isPart with ⟨literal, isLiteral, rfl⟩
    rcases exists_left_of_mem spelled isLiteral with ⟨value, _, spells⟩
    exact spells.oneLine
  let test := "if !" ++ condition.kind.membership (condition.access object condition.target) name
  refine ⟨condition.chain.map (fun field => (condition.access object field).ifAbsent notSynced),
    [.block test [.line notSynced]], ", ".intercalate condition.literals, ?_, ?_,
    AcceptedKind.readList?_intercalate nonempty spelled, oneLine⟩
  · simp only [code, candidates, String.append_assoc]
    rfl
  · intro piece listed
    rcases List.mem_append.mp listed with isTest | isLookup
    · rcases List.mem_map.mp isTest with ⟨field, _, rfl⟩
      exact ⟨_, _, rfl⟩
    · cases List.mem_singleton.mp isLookup
      exact ⟨_, _, rfl⟩

end ResolvedCondition

namespace Synced

/-- Observed state with a text, a number and a truth value. -/
def messageDefinition : ResourceDefinition where
  name := "Message"
  spec := .struct "MessageSpec" []
  status := some (.struct "MessageStatus" [
    ("Body", Shape.scalarOf .string), ("Offset", Shape.scalarOf .integer),
    ("Sent", Shape.scalarOf .boolean)])
  operations := ∅

/-- Texts that hold quotes, commas, backslashes, braces and a line end. -/
def bodies : List Value :=
  [.text "a\", \"b", .text "C:\\", .text "\x7b\n\x7d, \""]

/-- The least and the greatest number of 64 bits. -/
def offsets : List Value :=
  [.number (.integer (-0x8000000000000000)), .number (.integer 0x7fffffffffffffff)]

def messageConditions : List SyncedCondition := [
  { path := some "Status.Body", values := some bodies },
  { path := some "Status.Offset", values := some offsets },
  { path := some "Status.Sent", values := some [.boolean true, .boolean false] }]

def messageSettings : Settings where
  resources := .ofList [("Message", { syncedConditions := messageConditions })]

end Synced

end Reconcile
