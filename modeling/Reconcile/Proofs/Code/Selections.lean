import Reconcile.Code.Access
import Reconcile.Proofs.Text.Words

/-!
# Selections

The names along which an expression selects a value, read off its text: the expression is cut at
its dots, and indexes are left out, so that an element counts as its collection.
-/

namespace Reconcile.Access

/-- The letters outside of brackets, given whether a bracket is open. -/
def outside (isOpen : Bool) : List Char → List Char
  | [] => []
  | letter :: rest =>
      if letter = '[' then outside true rest
      else if letter = ']' then outside false rest
      else if isOpen then outside isOpen rest
      else letter :: outside isOpen rest

/-- The names along which an expression selects a value, with its outermost name first. -/
def selections (expression : String) : List String :=
  Text.split '.' (String.ofList (outside false expression.toList))

theorem outside_subset {isOpen : Bool} {letters : List Char} :
    outside isOpen letters ⊆ letters := by
  induction letters generalizing isOpen with
  | nil => exact List.nil_subset _
  | cons letter rest ih =>
      rw [outside]
      split
      · exact List.subset_cons_of_subset _ ih
      · split
        · exact List.subset_cons_of_subset _ ih
        · split
          · exact List.subset_cons_of_subset _ ih
          · exact List.cons_subset_cons _ ih

theorem outside_append {letters : List Char} (clean : '[' ∉ letters ∧ ']' ∉ letters)
    (rest : List Char) : outside false (letters ++ rest) = letters ++ outside false rest := by
  induction letters with
  | nil => rfl
  | cons letter others ih =>
      simp only [List.mem_cons, not_or] at clean
      have later := ih ⟨clean.1.2, clean.2.2⟩
      simp [outside, Ne.symm clean.1.1, Ne.symm clean.2.1, later]

theorem outside_index {letters : List Char} (clean : '[' ∉ letters ∧ ']' ∉ letters)
    (rest : List Char) : outside true (letters ++ ']' :: rest) = outside false rest := by
  induction letters with
  | nil => rfl
  | cons letter others ih =>
      simp only [List.mem_cons, not_or] at clean
      have later := ih ⟨clean.1.2, clean.2.2⟩
      simp [outside, Ne.symm clean.1.1, Ne.symm clean.2.1, later]

theorem noBracket_of_isDotted {text : String} (dotted : Text.IsDotted text) :
    '[' ∉ text.toList ∧ ']' ∉ text.toList :=
  ⟨dotted.not_mem (by decide) (by decide), dotted.not_mem (by decide) (by decide)⟩

variable {text name position : String}

/-- An expression of words and dots is cut at its dots. -/
theorem selections_of_isDotted (dotted : Text.IsDotted text) :
    selections text = Text.split '.' text := by
  have whole := outside_append (noBracket_of_isDotted dotted) []
  rw [List.append_nil] at whole
  rw [selections, whole, outside, List.append_nil, String.ofList_toList]

/-- An element is selected along the names of its collection. -/
theorem selections_index (dotted : Text.IsDotted text) (word : Text.IsWord position) :
    selections (text ++ "[" ++ position ++ "]") = Text.split '.' text := by
  have behind : outside false ("[".toList ++ (position.toList ++ "]".toList)) = [] :=
    outside_index (noBracket_of_isDotted word.isDotted) []
  simp only [selections, String.toList_append, List.append_assoc]
  rw [outside_append (noBracket_of_isDotted dotted), behind, List.append_nil,
    String.ofList_toList]

/-- An expression without dots selects nothing. -/
theorem selections_of_noDot (noDot : '.' ∉ text.toList) : ∃ name, selections text = [name] := by
  refine ⟨_, Text.split_of_not_mem ?_⟩
  rw [String.toList_ofList]
  exact fun membership => noDot (outside_subset membership)

theorem split_member (word : Text.IsWord name) :
    Text.split '.' (text ++ "." ++ name) = Text.split '.' text ++ [name] := by
  have cut := Text.split_append '.' text name
  rwa [Text.split_of_not_mem (word.not_mem (by decide))] at cut

/--
Whether an expression reaches what lies along a path in the desired state of either side, or
anything below the variables that hold the values of mappings.
-/
def Reads (first second : String) (path : List String) (expression : String) : Prop :=
  Text.split '.' (first ++ ".Spec") ++ path <+: selections expression ∨
    Text.split '.' (second ++ ".Spec") ++ path <+: selections expression ∨
      ∃ name, ["av", name] <+: selections expression ∨ ["bv", name] <+: selections expression

/--
Whether expressions tell two operands apart: neither lies in the desired state of the other, and
none of them is a variable that holds the values of mappings.
-/
structure Apart (first second : String) : Prop where
  ofFirst : ¬Text.split '.' (first ++ ".Spec") <+: Text.split '.' second
  ofSecond : ¬Text.split '.' (second ++ ".Spec") <+: Text.split '.' first
  loops : ∀ name ∈ ["av", "bv"], ¬[name] <+: Text.split '.' first ∧
    ¬[name] <+: Text.split '.' second

variable {first second expression : String} {path names : List String}

theorem Apart.symm (apart : Apart first second) : Apart second first where
  ofFirst := apart.ofSecond
  ofSecond := apart.ofFirst
  loops := fun name isVariable => And.symm (apart.loops name isVariable)

theorem Reads.symm (reads : Reads first second path expression) :
    Reads second first path expression := by
  rcases reads with first | second | loop
  · exact Or.inr (Or.inl first)
  · exact Or.inl second
  · exact Or.inr (Or.inr loop)

theorem split_spec (operand : String) :
    Text.split '.' (operand ++ ".Spec") = Text.split '.' operand ++ ["Spec"] := by
  have word : Text.IsWord "Spec" := by decide
  have joined : "." ++ "Spec" = ".Spec" := rfl
  rw [← joined, ← String.append_assoc, split_member word]

/-- Behind one name, lists lead each other only from the same place on. -/
theorem prefix_of_apart {left right : List String} {name : String}
    (leftApart : ¬left ++ [name] <+: right) (rightApart : ¬right ++ [name] <+: left)
    (within : left ++ name :: path <+: right ++ name :: names) : path <+: names := by
  rcases within with ⟨rest, same⟩
  rw [List.append_assoc] at same
  rcases List.append_eq_append_iff.mp same with ⟨more, longer, others⟩ | ⟨more, longer, others⟩
  · cases more with
    | nil => exact ⟨rest, by simpa using others⟩
    | cons next later =>
        exfalso
        apply leftApart
        simp only [List.cons_append, List.cons.injEq] at others
        rw [longer, ← others.1]
        exact ⟨later, by simp⟩
  · cases more with
    | nil => exact ⟨rest, by simpa using others.symm⟩
    | cons next later =>
        exfalso
        apply rightApart
        simp only [List.cons_append, List.cons.injEq] at others
        rw [longer, ← others.1]
        exact ⟨later, by simp⟩

/-- An expression below one operand reads no path that its names do not begin with. -/
theorem not_reads_of_apart (apart : Apart first second)
    (isBelow : selections expression = Text.split '.' (first ++ ".Spec") ++ names)
    (past : ¬path <+: names) : ¬Reads first second path expression := by
  -- An expression below an operand begins with the first name of the operand.
  have ofVariable : ∀ held ∈ ["av", "bv"], ∀ name,
      ¬[held, name] <+: Text.split '.' first ++ "Spec" :: names := by
    intro held isVariable name within
    rcases List.exists_cons_of_ne_nil (Text.split_ne_nil '.' first) with ⟨head, rest, cut⟩
    apply (apart.loops held isVariable).1
    rw [cut, List.cons_append, List.cons_prefix_cons] at within
    rw [cut, within.1]
    exact List.cons_prefix_cons.mpr ⟨rfl, List.nil_prefix⟩
  rcases apart with ⟨firstApart, secondApart, _⟩
  rw [Reads, isBelow]
  simp only [split_spec, List.append_assoc, List.singleton_append] at firstApart secondApart ⊢
  rintro (own | other | ⟨name, ofFirstVariable | ofSecondVariable⟩)
  · exact past (List.cons_prefix_cons.mp ((List.prefix_append_right_inj _).mp own)).2
  · exact past (prefix_of_apart secondApart firstApart other)
  · exact ofVariable "av" (by simp) name ofFirstVariable
  · exact ofVariable "bv" (by simp) name ofSecondVariable

/-- An expression without dots reads nothing. -/
theorem not_reads_of_noDot (noDot : '.' ∉ expression.toList) (nonempty : path ≠ []) :
    ¬Reads first second path expression := by
  rcases selections_of_noDot noDot with ⟨single, cut⟩
  have long : ∀ names : List String, 2 ≤ names.length → ¬names <+: selections expression := by
    intro names two within
    have bound := within.length_le
    rw [cut, List.length_singleton] at bound
    omega
  have below : ∀ operand : String, 2 ≤ (Text.split '.' (operand ++ ".Spec") ++ path).length := by
    intro operand
    have positive := List.length_pos_iff.mpr nonempty
    rw [split_spec, List.length_append, List.length_append, List.length_singleton]
    omega
  rintro (first | second | ⟨name, loop | loop⟩)
  · exact long _ (below _) first
  · exact long _ (below _) second
  · exact long _ (by simp) loop
  · exact long _ (by simp) loop

end Reconcile.Access
