import Reconcile.Proofs.References.Lines
import Reconcile.Proofs.References.Targets

/-!
# Loops over sequences

Reference code goes through the sequences around a field in loops, whose variables are numbered from
the outermost loop on. What stands inside the loops uses the variable of the innermost loop, and
code that writes to a field uses the positions of all of them. The loops use all their variables if
the code in them does, and no loop declares a variable of another one
(`Reference.fitsIn_openings`).
-/

namespace Reconcile

open Line

namespace Reference

/-! ### Loop variables -/

theorem iterator_eq (depth : Nat) : iterator depth = "f" ++ toString depth ++ "iter" :=
  rfl

theorem position_eq (depth : Nat) : position depth = "f" ++ toString depth ++ "idx" :=
  rfl

theorem isWord_iterator (depth : Nat) : Text.IsWord (iterator depth) := by
  rw [iterator_eq]
  exact (Text.IsWord.append (by decide) (Text.isWord_toString depth)).append (by decide)

theorem isWord_position (depth : Nat) : Text.IsWord (position depth) := by
  rw [position_eq]
  exact (Text.IsWord.append (by decide) (Text.isWord_toString depth)).append (by decide)

theorem iterator_ne_empty (depth : Nat) : iterator depth ≠ "" := by
  simp [iterator_eq]

theorem position_ne_empty (depth : Nat) : position depth ≠ "" := by
  simp [position_eq]

theorem iterator_injective : Function.Injective iterator := by
  intro left right same
  simp only [iterator_eq, String.append_left_inj, String.append_right_inj] at same
  exact Text.eq_of_toString_eq same

theorem position_injective : Function.Injective position := by
  intro left right same
  simp only [position_eq, String.append_left_inj, String.append_right_inj] at same
  exact Text.eq_of_toString_eq same

theorem iterator_ne_position (left right : Nat) : iterator left ≠ position right := by
  intro same
  have lasts := congrArg (fun text => text.toList.getLast?) same
  have ofIterator : "iter".toList.getLast? = some 'r' := by decide
  have ofPosition : "idx".toList.getLast? = some 'x' := by decide
  simp only [iterator_eq, position_eq, String.toList_append, List.getLast?_append, ofIterator,
    ofPosition, Option.some_or] at lasts
  exact absurd lasts (by decide)

/-- The variables that the loop over the sequence at a depth declares. -/
def loopVariables (indexed : Bool) (depth : Nat) : List String :=
  if indexed then [position depth, iterator depth] else [iterator depth]

/-- The variables that the loops around a depth declare. -/
def loopVariablesBelow (indexed : Bool) : Nat → List String
  | 0 => []
  | depth + 1 => loopVariables indexed depth ++ loopVariablesBelow indexed depth

theorem mem_loopVariables {indexed : Bool} {depth : Nat} {name : String}
    (isVariable : name ∈ loopVariables indexed depth) :
    (indexed = true ∧ name = position depth) ∨ name = iterator depth := by
  unfold loopVariables at isVariable
  split at isVariable
  · rename_i isIndexed
    simpa [isIndexed] using isVariable
  · exact Or.inr (List.mem_singleton.mp isVariable)

theorem iterator_mem_loopVariables (indexed : Bool) (depth : Nat) :
    iterator depth ∈ loopVariables indexed depth := by
  cases indexed <;> simp [loopVariables]

theorem mem_loopVariablesBelow {indexed : Bool} {depth : Nat} {name : String}
    (isVariable : name ∈ loopVariablesBelow indexed depth) :
    ∃ smaller < depth, name = position smaller ∨ name = iterator smaller := by
  induction depth with
  | zero => exact absurd isVariable List.not_mem_nil
  | succ depth ih =>
      rcases List.mem_append.mp isVariable with here | below
      · exact ⟨depth, Nat.lt_succ_self depth, (mem_loopVariables here).imp_left And.right⟩
      · rcases ih below with ⟨smaller, less, names⟩
        exact ⟨smaller, Nat.lt_succ_of_lt less, names⟩

theorem iterator_not_mem_below (indexed : Bool) (depth : Nat) :
    iterator depth ∉ loopVariablesBelow indexed depth := by
  intro isVariable
  rcases mem_loopVariablesBelow isVariable with ⟨smaller, less, isPosition | isIterator⟩
  · exact iterator_ne_position depth smaller isPosition
  · exact absurd (iterator_injective isIterator) (Nat.ne_of_gt less)

theorem position_not_mem_below (indexed : Bool) (depth : Nat) :
    position depth ∉ loopVariablesBelow indexed depth := by
  intro isVariable
  rcases mem_loopVariablesBelow isVariable with ⟨smaller, less, isPosition | isIterator⟩
  · exact absurd (position_injective isPosition) (Nat.ne_of_gt less)
  · exact iterator_ne_position smaller depth isIterator.symm

/-- A loop declares no variable of the loops around it. -/
theorem nodup_loopVariables {outer : Bool} {depth : Nat}
    (distinct : (loopVariablesBelow outer depth).Nodup) (indexed : Bool) :
    (loopVariables indexed depth ++ loopVariablesBelow outer depth).Nodup := by
  have noIterator := iterator_not_mem_below outer depth
  have noPosition := position_not_mem_below outer depth
  rw [loopVariables]
  split
  · have differ := (iterator_ne_position depth depth).symm
    exact List.nodup_cons.mpr ⟨by simp [differ, noPosition],
      List.nodup_cons.mpr ⟨noIterator, distinct⟩⟩
  · exact List.nodup_cons.mpr ⟨noIterator, distinct⟩

theorem nodup_loopVariablesBelow (indexed : Bool) (depth : Nat) :
    (loopVariablesBelow indexed depth).Nodup := by
  induction depth with
  | zero => exact List.nodup_nil
  | succ depth ih => exact nodup_loopVariables ih indexed

theorem position_mem_below {smaller depth : Nat} (less : smaller < depth) :
    position smaller ∈ loopVariablesBelow true depth := by
  induction depth with
  | zero => exact absurd less (Nat.not_lt_zero smaller)
  | succ depth ih =>
      rw [loopVariablesBelow, List.mem_append]
      rcases Nat.lt_succ_iff_lt_or_eq.mp less with below | rfl
      · exact Or.inr (ih below)
      · exact Or.inl List.mem_cons_self

/-! ### Expressions in scope -/

/-- Whether the loop variables in an expression are known from outside or declared by the blocks. -/
structure InScope (given blocks : List String) (access : Access) : Prop where
  plain : access.IsPlain
  bound : Bound isLoopVariable given blocks access.names

variable {given blocks : List String} {access : Access} {name header : String}

theorem InScope.member (inScope : InScope given blocks access) (isWord : Text.IsWord name) :
    InScope given blocks (access.member name) :=
  ⟨⟨inScope.plain, isWord⟩, inScope.bound⟩

theorem InScope.calm (inScope : InScope given blocks access) : Text.IsCalm access.text :=
  inScope.plain.calm

/-- A block that declares nothing changes no scope. -/
theorem InScope.flat (inScope : InScope given blocks access) (noLoop : isLoop header = false) :
    InScope given (header :: blocks) access := by
  refine ⟨inScope.plain, ?_⟩
  rw [Bound, Code.declared_flat noLoop]
  exact inScope.bound

theorem isPlain_desired {object : String} (dotted : Text.IsDotted object) :
    (desired object).IsPlain :=
  ⟨dotted, by decide⟩

theorem inScope_desired {object : String} (dotted : Text.IsDotted object) :
    InScope (namesIn object.toList) blocks (desired object) where
  plain := isPlain_desired dotted
  bound := fun _ isName _ => Or.inl isName

theorem names_iterator (depth : Nat) : (Access.root (iterator depth)).names = [iterator depth] := by
  rw [Access.names, namesIn, gather_word (isWord_iterator depth) (by decide)]
  simp [ended, iterator_ne_empty]

theorem inScope_iterator {depth : Nat} (isDeclared : iterator depth ∈ declared blocks) :
    InScope given blocks (.root (iterator depth)) where
  plain := (isWord_iterator depth).isDotted
  bound := by
    rw [names_iterator]
    simp [isDeclared]

/-- The number of sequences among fields. -/
def sequences (parents : List Field) : Nat :=
  (parents.filter (fun parent => parent.shape.isSequence)).length

theorem sequences_cons_sequence {parent : Field} (isSequence : parent.shape.isSequence = true)
    (rest : List Field) : sequences (parent :: rest) = sequences rest + 1 := by
  rw [sequences, List.filter_cons_of_pos (by exact isSequence), List.length_cons, sequences]

theorem sequences_cons_structure {parent : Field} (isStructure : parent.shape.isSequence = false)
    (rest : List Field) : sequences (parent :: rest) = sequences rest := by
  rw [sequences, List.filter_cons_of_neg (by simp [isStructure]), sequences]

theorem names_indexedAccess (start : Access) (depth : Nat) (parents : List Field) :
    (indexedAccess start depth parents).names =
      start.names ++ (List.range' depth (sequences parents)).map position := by
  induction parents generalizing start depth with
  | nil => simp [indexedAccess, sequences]
  | cons parent rest ih =>
      cases isSequence : parent.shape.isSequence with
      | true =>
          rw [indexedAccess, if_pos isSequence, ih, sequences_cons_sequence isSequence,
            List.range'_succ, List.map_cons]
          simp [Access.names]
      | false =>
          rw [indexedAccess, isSequence, if_neg Bool.false_ne_true, ih,
            sequences_cons_structure isSequence]
          rfl

theorem isPlain_indexedAccess {parents : List Field} {start : Access} (depth : Nat)
    (plain : start.IsPlain) (words : ∀ parent ∈ parents, Text.IsWord parent.names.exported) :
    (indexedAccess start depth parents).IsPlain := by
  induction parents generalizing start depth with
  | nil => exact plain
  | cons parent rest ih =>
      rcases List.forall_mem_cons.mp words with ⟨isWord, others⟩
      rw [indexedAccess]
      split
      · have index := isWord_position depth
        exact ih (depth + 1) ⟨plain.member isWord, index, position_ne_empty depth⟩ others
      · exact ih depth (plain.member isWord) others

/-! ### Tests -/

variable {body : List Code} {indexed : Bool} {test : Access → String} {second : Access}

/-- A block for a test of an expression in scope. -/
theorem fitsIn_if (isTest : IsTest test) (inScope : InScope given blocks access)
    (apart : (declared blocks).Nodup)
    (inner : ∀ header, isLoop header = false →
      Code.FitsIn isLoopVariable given (header :: blocks) body) :
    Code.FitsIn isLoopVariable given blocks [.block ("if " ++ test access) body] := by
  have noLoop : isLoop ("if " ++ test access ++ " \x7b") = false := isLoop_of_head (by simp)
  apply Code.fitsIn_flat
  · exact Text.IsCalm.append (by decide) (isTest.calm access inScope.plain)
  · exact noLoop
  · exact apart
  · rw [uses_test isTest inScope.plain]
    simp [inScope.bound, isLoopVariable]
  · exact inner _ noLoop

theorem fitsIn_ifBoth (isTest : IsTest test) (inScope : InScope given blocks access)
    (secondInScope : InScope given blocks second) (apart : (declared blocks).Nodup)
    (inner : ∀ header, isLoop header = false →
      Code.FitsIn isLoopVariable given (header :: blocks) body) :
    Code.FitsIn isLoopVariable given blocks
      [.block ("if " ++ test access ++ " && " ++ test second) body] := by
  have noLoop : isLoop ("if " ++ test access ++ " && " ++ test second ++ " \x7b") = false :=
    isLoop_of_head (by simp)
  have calm := isTest.calm access inScope.plain
  have secondCalm := isTest.calm second secondInScope.plain
  apply Code.fitsIn_flat
  · simp +decide [Text.IsCalm.append_iff, calm, secondCalm]
  · exact noLoop
  · exact apart
  · rw [uses_tests isTest inScope.plain secondInScope.plain]
    simp [inScope.bound, secondInScope.bound, isLoopVariable]
  · exact inner _ noLoop

theorem fitsIn_ifAny (inScope : InScope given blocks access) (apart : (declared blocks).Nodup)
    (inner : ∀ header, isLoop header = false →
      Code.FitsIn isLoopVariable given (header :: blocks) body) :
    Code.FitsIn isLoopVariable given blocks
      [.block ("if len(" ++ access.text ++ ") > 0") body] := by
  have noLoop : isLoop ("if len(" ++ access.text ++ ") > 0" ++ " \x7b") = false :=
    isLoop_of_head (by simp)
  apply Code.fitsIn_flat
  · exact (Text.IsCalm.append (by decide) inScope.calm).append (by decide)
  · exact noLoop
  · exact apart
  · rw [uses_length inScope.plain]
    simp [inScope.bound, isLoopVariable]
  · exact inner _ noLoop

theorem mentions_if (isTest : IsTest test) (plain : access.IsPlain) (isName : name ∈ access.names)
    (body : List Code) : Code.Mentions [.block ("if " ++ test access) body] name := by
  apply Code.mentions_header
  rw [uses_test isTest plain]
  simp [isName]

theorem mentions_ifBoth (isTest : IsTest test) (plain : access.IsPlain)
    (secondPlain : second.IsPlain) (isName : name ∈ access.names) (body : List Code) :
    Code.Mentions [.block ("if " ++ test access ++ " && " ++ test second) body] name := by
  apply Code.mentions_header
  rw [uses_tests isTest plain secondPlain]
  simp [isName]

theorem mentions_ifAny (plain : access.IsPlain) (isName : name ∈ access.names) (body : List Code) :
    Code.Mentions [.block ("if len(" ++ access.text ++ ") > 0") body] name := by
  apply Code.mentions_header
  rw [uses_length plain]
  simp [isName]

/-! ### Openings -/

theorem inside_cons (opening : Opening) (rest : List Opening) (body : List Code) :
    inside (opening :: rest) body = [.block opening.header (inside rest body)] := rfl

theorem isPlain_openings {parents : List Field} {start : Access} (depth : Nat)
    (plain : start.IsPlain) (words : ∀ parent ∈ parents, Text.IsWord parent.names.exported) :
    (openings indexed start depth parents).2.IsPlain := by
  induction parents generalizing start depth with
  | nil => exact plain
  | cons parent rest ih =>
      rcases List.forall_mem_cons.mp words with ⟨isWord, others⟩
      cases isSequence : parent.shape.isSequence with
      | true =>
          rw [openings_cons_sequence isSequence]
          exact ih (depth + 1) (isWord_iterator depth).isDotted others
      | false =>
          rw [openings_cons_structure isSequence]
          exact ih depth (plain.member isWord) others

theorem mentions_inside (openings : List Opening) (mentioned : Code.Mentions body name) :
    Code.Mentions (inside openings body) name := by
  induction openings with
  | nil => exact mentioned
  | cons opening rest ih => exact ih.block

/-- The name of the position in a loop, or a blank. -/
def loopIndex (indexed : Bool) (depth : Nat) : String :=
  if indexed then position depth else "_"

theorem isWord_loopIndex (indexed : Bool) (depth : Nat) :
    Text.IsWord (loopIndex indexed depth) ∧ loopIndex indexed depth ≠ "" := by
  unfold loopIndex
  split
  · exact ⟨isWord_position depth, position_ne_empty depth⟩
  · decide

theorem position_ne_blank (depth : Nat) : (position depth != "_") = true := by
  have letters : (position depth).toList ≠ "_".toList := by simp [position_eq]
  exact bne_iff_ne.mpr (fun same => letters (congrArg String.toList same))

theorem iterator_ne_blank (depth : Nat) : (iterator depth != "_") = true := by
  have letters : (iterator depth).toList ≠ "_".toList := by simp [iterator_eq]
  exact bne_iff_ne.mpr (fun same => letters (congrArg String.toList same))

/-- The header of the loop over the sequence at a depth. -/
theorem declares_loop (indexed : Bool) (depth : Nat) (access : Access) :
    declares ((Opening.each (loopIndex indexed depth) (iterator depth) access).header ++ " \x7b") =
      loopVariables indexed depth := by
  rcases isWord_loopIndex indexed depth with ⟨indexWord, indexNonempty⟩
  rw [Opening.header, declares_each indexWord (isWord_iterator depth) indexNonempty
    (iterator_ne_empty depth)]
  cases indexed <;>
    simp [loopIndex, loopVariables, position_ne_blank, iterator_ne_blank]

theorem uses_loop (indexed : Bool) (depth : Nat) (plain : access.IsPlain) :
    uses ((Opening.each (loopIndex indexed depth) (iterator depth) access).header ++ " \x7b") =
      "range" :: access.names := by
  rcases isWord_loopIndex indexed depth with ⟨indexWord, _⟩
  rw [Opening.header, uses_each indexWord (isWord_iterator depth) plain]

/-- Blocks use the expression that they start from, as far as their body uses what they lead to. -/
theorem mentions_start {parents : List Field} {start : Access} {depth : Nat}
    (plain : start.IsPlain) (words : ∀ parent ∈ parents, Text.IsWord parent.names.exported)
    (mentioned : ∀ name ∈ (openings indexed start depth parents).2.names,
      Code.Mentions body name) :
    ∀ name ∈ start.names,
      Code.Mentions (inside (openings indexed start depth parents).1 body) name := by
  intro name isName
  cases parents with
  | nil => exact mentioned name isName
  | cons parent rest =>
      have isWord := words parent List.mem_cons_self
      have whole := plain.member isWord
      cases isSequence : parent.shape.isSequence with
      | true =>
          rw [openings_cons_sequence isSequence]
          apply Code.mentions_header
          rw [← loopIndex, uses_loop indexed depth whole]
          exact List.mem_cons_of_mem _ isName
      | false =>
          rw [openings_cons_structure isSequence]
          exact mentions_if isTest_isPresent whole isName _

/-- A loop around code that uses its variables. -/
theorem fitsIn_loop {outer : Bool} {depth : Nat} (inScope : InScope given blocks access)
    (areDeclared : declared blocks = loopVariablesBelow outer depth)
    (mentioned : ∀ name ∈ loopVariables indexed depth, Code.Mentions body name)
    (inner : ∀ header, declared (header :: blocks) =
      loopVariables indexed depth ++ loopVariablesBelow outer depth →
        Code.FitsIn isLoopVariable given (header :: blocks) body) :
    Code.FitsIn isLoopVariable given blocks
      [.block (Opening.each (loopIndex indexed depth) (iterator depth) access).header body] := by
  have declares := declares_loop indexed depth access
  have index : Text.IsCalm (loopIndex indexed depth) :=
    .of_isWhole (Term.isWhole_of_isWord (isWord_loopIndex indexed depth).1)
  have each : Text.IsCalm (iterator depth) :=
    .of_isWhole (Term.isWhole_of_isWord (isWord_iterator depth))
  have distinct := nodup_loopVariables (nodup_loopVariablesBelow outer depth) indexed
  have isRange : isLoopVariable "range" = false := by decide
  apply Code.fitsIn_block
  · simp +decide [Opening.header, Text.IsCalm.append_iff, index, each, inScope.calm]
  · rwa [Apart, declares, areDeclared]
  · rw [uses_loop indexed depth inScope.plain, bound_cons]
    exact ⟨by simp [isRange], inScope.bound⟩
  · apply inner
    rw [declared, List.flatMap_cons, declares, ← declared, areDeclared]
  · rw [declares]
    exact mentioned

/--
Code that fits in behind the parents of a field fits in inside the blocks for them, provided that
it uses what they lead to, and all positions if they are named.
-/
theorem fitsIn_openings {parents : List Field}
    (words : ∀ parent ∈ parents, Text.IsWord parent.names.exported) {start : Access} {depth : Nat}
    (inScope : InScope given blocks start)
    (areDeclared : declared blocks = loopVariablesBelow indexed depth)
    (mentionsLast : ∀ name ∈ (openings indexed start depth parents).2.names,
      Code.Mentions body name)
    (mentionsPositions : indexed = true → ∀ number < depth + sequences parents,
      Code.Mentions body (position number))
    (inner : ∀ inner, InScope given inner (openings indexed start depth parents).2 →
      declared inner = loopVariablesBelow indexed (depth + sequences parents) →
        Code.FitsIn isLoopVariable given inner body) :
    Code.FitsIn isLoopVariable given blocks
      (inside (openings indexed start depth parents).1 body) := by
  induction parents generalizing start depth blocks with
  | nil => exact inner blocks inScope areDeclared
  | cons parent rest ih =>
      rcases List.forall_mem_cons.mp words with ⟨isWord, others⟩
      have access := inScope.member isWord
      cases isSequence : parent.shape.isSequence with
      | true =>
          rw [openings_cons_sequence isSequence] at mentionsLast inner ⊢
          rw [sequences_cons_sequence isSequence, ← Nat.add_assoc,
            Nat.add_right_comm] at mentionsPositions inner
          rw [inside_cons, ← loopIndex]
          apply fitsIn_loop access areDeclared
          · intro name isVariable
            -- The element is what the inner blocks start from, positions are used in the body.
            have plain : (Access.root (iterator depth)).IsPlain := (isWord_iterator depth).isDotted
            have mentionsEach := mentions_start plain others mentionsLast
            rw [names_iterator] at mentionsEach
            rcases mem_loopVariables isVariable with ⟨isIndexed, rfl⟩ | rfl
            · exact mentions_inside _ (mentionsPositions isIndexed depth (by omega))
            · exact mentionsEach _ List.mem_cons_self
          · intro header isDeclared
            have eachInScope : InScope given (header :: blocks) (.root (iterator depth)) := by
              apply inScope_iterator
              rw [isDeclared]
              exact List.mem_append_left _ (iterator_mem_loopVariables indexed depth)
            exact ih others eachInScope isDeclared mentionsLast mentionsPositions inner
      | false =>
          rw [openings_cons_structure isSequence] at mentionsLast inner ⊢
          rw [sequences_cons_structure isSequence] at mentionsPositions inner
          apply fitsIn_if isTest_isPresent access
          · rw [areDeclared]
            exact nodup_loopVariablesBelow indexed depth
          · intro header noLoop
            exact ih others (access.flat noLoop) ((Code.declared_flat noLoop).trans areDeclared)
              mentionsLast mentionsPositions inner

end Reference

end Reconcile
