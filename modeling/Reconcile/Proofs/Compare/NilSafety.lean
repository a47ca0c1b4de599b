import Reconcile.Proofs.Compare.Closure
import Reconcile.Proofs.Compare.Recording
import Reconcile.Resource.Registration

/-!
# Absence of nil dereferences

A line of generated code that selects a member of a value, dereferences it or calls its method
stands in a block that is entered only if the value is present, unless the value is a part of
the expressions that the comparison starts from (`NilSafe`). Both are read off the text: values
off the terms of a line, and open blocks off the lines before it.
-/

namespace Reconcile

/-- Whether an expression is a root or is selected from on the way to it. -/
def IsRootPart (root value : String) : Prop :=
  value = root ∨ ∃ rest, root = value ++ "." ++ rest

/-- Whether two expressions reach the same value from two roots, or from the values of a loop. -/
def Counterparts (firstRoot secondRoot first second : String) : Prop :=
  ∃ steps, (first = firstRoot ++ steps ∧ second = secondRoot ++ steps) ∨
    (first = "av" ++ steps ∧ second = "bv" ++ steps)

/-- The line that opens the block in which two values are present. -/
def guardOf (first second : String) : String :=
  "\x7d else if " ++ first ++ " != nil && " ++ second ++ " != nil \x7b"

/--
Whether a line uses values and calls helpers only in blocks that are guarded for the values and
for the arguments, given the blocks that it stands in.
-/
structure IsGuarded (firstRoot secondRoot : String) (blocks : List String) (text : String) :
    Prop where
  uses : ∀ term ∈ Term.ofLine text, ∀ value, term.Uses value →
    IsRootPart firstRoot value ∨ IsRootPart secondRoot value ∨
      ∃ first second, Counterparts firstRoot secondRoot first second ∧
        (value = first ∨ value = second) ∧ guardOf first second ∈ blocks
  calls : ∀ term ∈ Term.ofLine text, ∀ helper, term.NamesHelper helper →
    ∃ first second, Counterparts firstRoot secondRoot first second ∧
      text = "if !" ++ helper ++ "(" ++ first ++ ", " ++ second ++ ") \x7b" ∧
        guardOf first second ∈ blocks

/-- Whether all lines of a text are guarded, but for those that declare functions. -/
def NilSafe (firstRoot secondRoot text : String) : Prop :=
  ∀ earlier line later, Line.readAll text = earlier ++ line :: later →
    ¬"func ".toList <+: line.text.toList →
      IsGuarded firstRoot secondRoot (Line.around (Line.behindAll [] earlier) line.text) line.text

/-! ### Selections along an expression -/

section

variable {value rest expression name : String}

/-- What is selected from in a member expression is its value or is selected from in that. -/
theorem selects_member (word : Text.IsWord name)
    (same : value ++ "." ++ rest = expression ++ "." ++ name) :
    value = expression ∨ ∃ left, value ++ "." ++ left = expression := by
  have noDot : '.' ∉ name.toList := word.not_mem (by decide)
  rw [← String.toList_inj] at same
  simp only [String.toList_append, List.append_assoc] at same
  -- The dot of the selection is the last one or stands before it, for the name holds none.
  rcases List.append_eq_append_iff.mp same with ⟨more, inside, selected⟩ | ⟨more, inside, selected⟩
  · cases more with
    | nil => exact Or.inl (String.toList_inj.mp (by simpa using inside.symm))
    | cons letter others =>
        refine Or.inr ⟨String.ofList others, String.toList_inj.mp ?_⟩
        simp at selected
        simp [inside, ← selected.1]
  · cases more with
    | nil => exact Or.inl (String.toList_inj.mp (by simpa using inside))
    | cons letter others =>
        exfalso
        simp at selected
        exact noDot (by simp [selected.2])

theorem selects_index (word : Text.IsWord name)
    (same : value ++ "." ++ rest = expression ++ "[" ++ name ++ "]") :
    ∃ left, value ++ "." ++ left = expression := by
  have noDot : '.' ∉ name.toList := word.not_mem (by decide)
  rw [← String.toList_inj] at same
  simp only [String.toList_append, List.append_assoc] at same
  rcases List.append_eq_append_iff.mp same with ⟨more, inside, selected⟩ | ⟨more, inside, selected⟩
  · cases more with
    | nil => simp at selected
    | cons letter others =>
        refine ⟨String.ofList others, String.toList_inj.mp ?_⟩
        simp at selected
        simp [inside, ← selected.1]
  · exfalso
    have dot : '.' ∈ "[".toList ++ (name.toList ++ "]".toList) := by
      rw [selected]
      simp
    simp [noDot] at dot

theorem no_selection (word : Text.IsWord name) : value ++ "." ++ rest ≠ name := by
  rintro rfl
  exact word.not_mem (by decide : Text.isWordLetter '.' = false) (by simp)

end

namespace Site

variable {root site : Site} {blocks : List String} {value rest : String}

theorem Reached.counterparts (reached : Reached root blocks site) :
    Counterparts root.first.text root.second.text site.first.text site.second.text := by
  induction reached with
  | root => exact ⟨"", Or.inl (by simp)⟩
  | @member site path name _ _ _ _ ih =>
      rcases ih with ⟨steps, ⟨first, second⟩ | ⟨first, second⟩⟩
      · refine ⟨steps ++ "." ++ name, Or.inl ?_⟩
        simp [Access.text, first, second, String.append_assoc]
      · refine ⟨steps ++ "." ++ name, Or.inr ?_⟩
        simp [Access.text, first, second, String.append_assoc]
  | @index site position _ _ ih =>
      rcases ih with ⟨steps, ⟨first, second⟩ | ⟨first, second⟩⟩
      · exact ⟨steps ++ "[" ++ position ++ "]",
          Or.inl (by simp [Site.index, Access.text, first, second, String.append_assoc])⟩
      · exact ⟨steps ++ "[" ++ position ++ "]",
          Or.inr (by simp [Site.index, Access.text, first, second, String.append_assoc])⟩
  | held _ _ => exact ⟨"", Or.inr (by simp [Site.held, Access.text])⟩

/-- Whether a value is a part of a root or is guarded by an open block. -/
def Covers (root : Site) (blocks : List String) (value : String) : Prop :=
  IsRootPart root.first.text value ∨ IsRootPart root.second.text value ∨
    ∃ first second, Counterparts root.first.text root.second.text first second ∧
      (value = first ∨ value = second) ∧ guardOf first second ∈ blocks

theorem presentHeader_eq (site : Site) :
    site.presentHeader = guardOf site.first.text site.second.text := by
  simp [presentHeader, Access.isPresent, guardOf, ← String.toList_inj]

theorem Reached.covers (reached : Reached root blocks site) (isOpen : site.IsOpen root blocks)
    (same : value = site.first.text ∨ value = site.second.text) : Covers root blocks value := by
  rcases isOpen with ⟨first, second⟩ | guarded
  · rcases same with rfl | rfl
    · exact Or.inl (Or.inl (by rw [first]))
    · exact Or.inr (Or.inl (Or.inl (by rw [second])))
  · rw [presentHeader_eq] at guarded
    exact Or.inr (Or.inr ⟨_, _, reached.counterparts, same, guarded⟩)

/-- Whatever is selected from on the way to a reached site may be used. -/
theorem Reached.covers_selected (reached : Reached root blocks site)
    (same : value ++ "." ++ rest = site.first.text ∨ value ++ "." ++ rest = site.second.text) :
    Covers root blocks value := by
  -- Along the way to the site; each member on it was selected from an open site.
  induction reached generalizing rest with
  | root =>
      rcases same with first | second
      · exact Or.inl (Or.inr ⟨rest, first.symm⟩)
      · exact Or.inr (Or.inl (Or.inr ⟨rest, second.symm⟩))
  | @member site path name above isOpen word _ ih =>
      rcases same with first | second
      · rcases selects_member word first with isValue | ⟨left, isBefore⟩
        · exact above.covers isOpen (Or.inl isValue)
        · exact ih (Or.inl isBefore)
      · rcases selects_member word second with isValue | ⟨left, isBefore⟩
        · exact above.covers isOpen (Or.inr isValue)
        · exact ih (Or.inr isBefore)
  | index _ word ih =>
      rcases same with first | second
      · rcases selects_index word first with ⟨left, isBefore⟩
        exact ih (Or.inl isBefore)
      · rcases selects_index word second with ⟨left, isBefore⟩
        exact ih (Or.inr isBefore)
  | held _ _ =>
      have firstWord : Text.IsWord "av" := by decide
      have secondWord : Text.IsWord "bv" := by decide
      rcases same with first | second
      · exact absurd first (no_selection firstWord)
      · exact absurd second (no_selection secondWord)

end Site

/-! ### Lines -/

section

variable {root : Site} {blocks : List String} {asked : Shape → Prop} {text : String} {term : Term}

theorem Term.Role.uses (role : term.Role root blocks asked text)
    (words : ∀ shape, asked shape → Text.IsWord shape.name) {value : String}
    (use : term.Uses value) : Site.Covers root blocks value := by
  cases role with
  | inert inert => exact absurd use (inert.not_uses value)
  | reads site reached same noStar noCall =>
      rcases use.2 with ⟨star, _⟩ | ⟨rest, selects, _⟩
      · exact absurd star noStar
      · rw [selects] at same
        exact reached.covers_selected same
  | follows site reached isOpen same noCall =>
      rcases use.2 with ⟨_, isValue⟩ | ⟨rest, selects, _⟩
      · rw [isValue] at same
        exact reached.covers isOpen same
      · rw [selects] at same
        exact reached.covers_selected same
  | method site reached isOpen same noStar =>
      rcases use.2 with ⟨star, _⟩ | ⟨rest, selects, _⟩
      · exact absurd star noStar
      · have word : Text.IsWord "Equal" := by decide
        have split : value ++ "." ++ rest = site.first.text ++ "." ++ "Equal" := by
          rw [← selects, same, ← String.toList_inj]
          simp
        rcases selects_member word split with isValue | ⟨left, isBefore⟩
        · exact reached.covers isOpen (Or.inl isValue)
        · exact reached.covers_selected (Or.inl isBefore)
  | helper site shape reached guarded known same noStar call =>
      rcases use.2 with ⟨star, _⟩ | ⟨rest, selects, _⟩
      · exact absurd star noStar
      · have word := Equality.isWord_helperName (words shape known)
        exact absurd (selects.symm.trans same) (no_selection word)

theorem Term.Role.calls (role : term.Role root blocks asked text) {helper : String}
    (named : term.NamesHelper helper) :
    ∃ first second, Counterparts root.first.text root.second.text first second ∧
      text = "if !" ++ helper ++ "(" ++ first ++ ", " ++ second ++ ") \x7b" ∧
        guardOf first second ∈ blocks := by
  rcases named with ⟨after, rfl, isHelper⟩
  cases role with
  | inert inert => exact absurd ⟨after, rfl, isHelper⟩ (inert.not_namesHelper term.text)
  | reads site reached same noStar noCall => exact absurd after noCall
  | follows site reached isOpen same noCall => exact absurd after noCall
  | method site reached isOpen same noStar =>
      exfalso
      apply isHelper.2.not_mem (by decide : Text.isWordLetter '.' = false)
      simp [same]
  | helper site shape reached guarded known same noStar call =>
      rw [Site.presentHeader_eq] at guarded
      refine ⟨_, _, reached.counterparts, ?_, guarded⟩
      rw [call, Test.condition_helper, same, ← String.toList_inj]
      simp

theorem Emitted.isGuarded {action : Site → String} {visited : Site → Prop}
    (emitted : Emitted root action asked visited blocks text) (wholeRoot : root.IsWhole)
    (words : ∀ shape, asked shape → Text.IsWord shape.name)
    (actions : ∀ site, Site.Reached root blocks site → ∀ term ∈ Term.ofLine (action site),
      term.Role root blocks asked (action site)) :
    IsGuarded root.first.text root.second.text blocks text where
  uses := by
    intro term membership value use
    exact (emitted.role wholeRoot words actions membership).uses words use
  calls := by
    intro term membership helper named
    exact (emitted.role wholeRoot words actions membership).calls named

theorem isGuarded_of_inert {firstRoot secondRoot : String}
    (inert : ∀ term ∈ Term.ofLine text, term.IsInert) :
    IsGuarded firstRoot secondRoot blocks text where
  uses := by
    intro term membership value use
    exact absurd use ((inert term membership).not_uses value)
  calls := by
    intro term membership helper named
    exact absurd named ((inert term membership).not_namesHelper helper)

end

theorem nilSafe_body {root : Site} {action : Site → String} {plain : Shape → Prop}
    {checks : List Check} (flat : Check.IsFlat action) (sound : Check.SoundOf root plain [] checks)
    (wholeRoot : root.IsWhole) (words : ∀ shape, plain shape → Text.IsWord shape.name)
    (level : Nat)
    (roles : ∀ blocks site, Site.Reached root blocks site → ∀ term ∈ Term.ofLine (action site),
      term.Role root blocks (· ∈ Demand.shapes (Check.demandsOf checks)) (action site))
    (actions : ∀ blocks site, Site.Reached root blocks site →
      ∀ level, Line.IsPlain ⟨level, action site⟩) :
    NilSafe root.first.text root.second.text
      (Code.renderBehindBlank (Check.codeOf action checks) level) := by
  intro earlier line later place _
  rw [Check.readAll_body flat sound wholeRoot words level actions] at place
  rcases (Check.hold_body flat sound level).at_place place with same | emitted
  · rw [same]
    exact isGuarded_of_inert (by decide)
  · refine emitted.isGuarded wholeRoot ?_ (roles _)
    intro shape demanded
    exact words shape (Check.plain_of_soundOf checks sound shape demanded)

theorem nilSafe_helpers {normalizer : Normalizer} {fits : Shape → Prop}
    {helpers : List Equality.Helper} (planned : Equality.PlainHelpers normalizer fits helpers) :
    NilSafe "a" "b" (Equality.helpersText helpers) := by
  intro earlier line later place noFunction
  rw [planned.readAll] at place
  cases planned.hold.at_place place with
  | blank same =>
      rw [same]
      exact isGuarded_of_inert (by decide)
  | declares helper isWritten same =>
      exact absurd (by rw [same]; simp [Equality.Helper.declaration]) noFunction
  | compares emitted =>
      exact emitted.isGuarded Equality.PlainHelpers.isWhole_root planned.isWord_asked
        (fun site _ => Equality.role_action site)
  | ends same =>
      rw [same]
      exact isGuarded_of_inert (by decide)

/--
Generated comparisons are safe: difference code and the bodies of equality code below the
expressions that they start from, and helpers below their parameters. Names are words, and
operands are words with dots between them.
-/
theorem nilSafe_generated :
    (∀ (resource : Resource) (normalizer : Normalizer) (first second : String) (level : Nat)
      (text : String),
        resource.Named Text.IsWord (Shape.Named normalizer (fun _ => True) Text.IsWord) →
          Text.IsDotted first → Text.IsDotted second →
            Delta.compareResource resource normalizer first second level = .ok text →
              NilSafe (first ++ ".Spec") (second ++ ".Spec") text) ∧
      ∀ (call : Equality.Call) (queue after : HelperQueue) (code : EqualityCode),
        call.IsNamed (Shape.Named call.normalizer Text.IsWord Text.IsWord) →
          (∀ shape ∈ queue.pending,
            shape.IsPlain (Shape.Named call.normalizer Text.IsWord Text.IsWord)) →
            call.run queue = (.ok code, after) →
              NilSafe call.root.first.text call.root.second.text code.body ∧
                NilSafe "a" "b" code.helpers := by
  constructor
  · intro resource normalizer first second level text named firstDotted secondDotted written
    have inherited := Shape.inherited_named normalizer (fun _ => True)
    rcases Delta.compareResource_ok (fun _ => False) inherited named written with
      ⟨tag, checks, _, _, sound, rfl⟩
    have wholeRoot := Site.isWhole_ofSpec firstDotted secondDotted
    rcases Site.text_ofSpec first second with ⟨firstText, secondText⟩
    rw [← firstText, ← secondText]
    refine nilSafe_body Delta.isFlat_action sound wholeRoot (by simp) level ?_ ?_
    · intro blocks site reached term membership
      exact Delta.role_action reached (reached.isWhole wholeRoot)
        (reached.pathWords Site.isWord_ofSpec) membership
    · intro blocks site reached level
      exact Delta.isPlain_action (reached.isWhole wholeRoot) (reached.pathWords Site.isWord_ofSpec)
  · intro call queue after code named pending run
    have inherited := Shape.inherited_named call.normalizer Text.IsWord
    rcases Equality.Call.succeeds_of_run run with ⟨checks, added, helpers, succeeds⟩
    have planned := succeeds.plainHelpers inherited (fun _ plain => plain.named) named pending
    rw [succeeds.body, succeeds.text]
    refine ⟨?_, nilSafe_helpers planned⟩
    exact nilSafe_body Equality.isFlat_action
      (Equality.Call.soundOf_checks inherited named succeeds.planned)
      (Equality.Call.isWhole_root named) planned.words call.level
      (fun _ site _ => Equality.role_action site) (fun _ _ _ _ => Equality.isPlain_action)

/-- The names of a structure in a list are words, so that its comparisons are safe. -/
theorem nilSafe_generated_items :
    let item : Shape := .struct "Item" [("Name", Shape.scalarOf .string)]
    let outer : Shape := .struct "Outer" [("Items", .sequence "ItemList" item)]
    let call : Equality.Call := ⟨.shape outer, .default, "a.ko", "b.ko", 1⟩
    (∃ resource text, Resource.ofDefinition ⟨"Outer", outer, none, ∅⟩ {} .default = .ok resource ∧
      Delta.compareResource resource .default "a.ko" "b.ko" 1 = .ok text ∧
        NilSafe ("a.ko" ++ ".Spec") ("b.ko" ++ ".Spec") text) ∧
      ∃ code after, call.run .empty = (.ok code, after) ∧ NilSafe "a.ko" "b.ko" code.body ∧
        NilSafe "a" "b" code.helpers := by
  intro item outer call
  constructor
  · have facts : ∃ resource ∈ (Resource.ofDefinition ⟨"Outer", outer, none, ∅⟩ {}
        .default).toOption,
          resource.Named Text.IsWord (Shape.Named .default (fun _ => True) Text.IsWord) ∧
            (Delta.compareResource resource .default "a.ko" "b.ko" 1).toOption.isSome = true := by
      decide +kernel
    rcases facts with ⟨resource, made, named, succeeds⟩
    rcases Option.isSome_iff_exists.mp succeeds with ⟨text, given⟩
    have written := Outcome.of_mem_toOption given
    exact ⟨resource, text, Outcome.of_mem_toOption made, written,
      nilSafe_generated.1 resource .default "a.ko" "b.ko" 1 text named (by decide) (by decide)
        written⟩
  · have outerNamed : outer.Named .default Text.IsWord Text.IsWord := by decide +kernel
    have named : call.IsNamed (Shape.Named call.normalizer Text.IsWord Text.IsWord) :=
      ⟨by decide, by decide, outerNamed⟩
    have succeeds : (call.run .empty).1.toOption.isSome = true := by decide +kernel
    rcases Option.isSome_iff_exists.mp succeeds with ⟨code, given⟩
    have run : call.run .empty = (.ok code, (call.run .empty).2) :=
      Prod.ext (Outcome.of_mem_toOption given) rfl
    exact ⟨code, (call.run .empty).2, run,
      nilSafe_generated.2 call .empty _ code named (by simp [HelperQueue.empty]) run⟩

/-- A name with a dot in it selects from a value that nothing guards. -/
theorem dotted_member_unguarded :
    ¬∀ (shape : Shape) (normalizer : Normalizer) (first second : String) (level : Nat)
      (code : EqualityCode) (after : HelperQueue),
        shape.Named normalizer Text.IsDotted Text.IsDotted →
          Text.IsDotted first → Text.IsDotted second →
            Equality.compareShape shape normalizer first second level .empty = (.ok code, after) →
              NilSafe first second code.body := by
  intro safe
  have isDotted : Text.IsDotted (Normalizer.default "A.B").exported := by decide +kernel
  have safe := fun code after => safe (.struct "Thing" [("A.B", Shape.scalarOf .string)]) .default
    "x" "y" 1 code after ⟨by decide, isDotted, trivial, trivial⟩ (by decide) (by decide)
  have lines : ∃ code ∈ Equality.written [(Equality.compareShape
      (.struct "Thing" [("A.B", Shape.scalarOf .string)]) .default "x" "y" 1 .empty).1],
        (Line.readAll code.body).take 2 =
          [Line.blank, ⟨1, "if ackcompare.HasNilDifference(x.A.B, y.A.B) \x7b"⟩] := by
    decide +kernel
  rcases lines with ⟨code, membership, front⟩
  have isCode := (List.mem_singleton.mp (Equality.mem_written.mp membership)).symm
  have place := (List.take_append_drop 2 (Line.readAll code.body)).symm
  rw [front] at place
  have guarded := safe code _ (Prod.ext isCode rfl) [Line.blank] _ _ place (by simp)
  -- No block is open at the line, so that `x.A` would have to be a part of an operand.
  have noBlocks : Line.around (Line.behindAll [] [Line.blank])
      "if ackcompare.HasNilDifference(x.A.B, y.A.B) \x7b" = [] := by decide
  have covered := guarded.uses ⟨'(', "x.A.B", ','⟩ (by decide) "x.A"
    ⟨by decide, Or.inr ⟨"B", rfl, by simp⟩⟩
  rw [noBlocks] at covered
  rcases covered with (same | ⟨rest, same⟩) | (same | ⟨rest, same⟩) | ⟨_, _, _, _, isOpen⟩
  · simp at same
  · simp [← String.toList_inj] at same
  · simp at same
  · simp [← String.toList_inj] at same
  · exact List.not_mem_nil isOpen

end Reconcile
