import Mathlib.Data.List.Sort
import Reconcile.Text.Order

/-!
# Sorting by texts

The sort is insertion sort by the order of texts (`sortedBy_eq_insertionSort`). So its result is
ascending (`sortedBy_ascending`), and items that ascend already stay as they are
(`sortedBy_eq_self`). Sorting looks at the texts of items only (`sortedBy_map`), and where these are
distinct the order in which the items come does not matter (`sortedBy_eq_of_perm`). Items that
ascend by one text ascend by another one exactly if the two agree on which of them comes first
(`ascending_iff`). Sorted texts without repetitions ascend strictly (`pairwise_eraseReps`).
-/

namespace Reconcile.Text

variable {α β : Type} {key : β → String}

theorem insertBy_eq_orderedInsert (item : β) (items : List β) :
    insertBy key item items =
      items.orderedInsert (fun earlier later => key earlier ≤ key later) item := by
  induction items with
  | nil => rfl
  | cons head rest ih => rw [insertBy, List.orderedInsert_cons, ih]

theorem sortedBy_eq_insertionSort (items : List β) :
    sortedBy key items = items.insertionSort (fun earlier later => key earlier ≤ key later) := by
  induction items with
  | nil => rfl
  | cons item rest ih =>
      rw [sortedBy, ih, insertBy_eq_orderedInsert, List.insertionSort_cons]

/-- Sorting puts the items in ascending order. -/
theorem sortedBy_ascending (items : List β) : Ascending key (sortedBy key items) := by
  have total : Std.Total (fun earlier later : β => key earlier ≤ key later) :=
    ⟨fun earlier later => String.le_total (key earlier) (key later)⟩
  have trans : IsTrans β (fun earlier later : β => key earlier ≤ key later) :=
    ⟨fun _ _ _ => String.le_trans⟩
  rw [sortedBy_eq_insertionSort]
  exact List.pairwise_insertionSort _ items

/-- Items in ascending order stay as they are. -/
theorem sortedBy_eq_self {items : List β} (ascending : Ascending key items) :
    sortedBy key items = items := by
  rw [sortedBy_eq_insertionSort]
  exact List.Pairwise.insertionSort_eq ascending

/-- Items are sorted by what their texts become. -/
theorem sortedBy_map (change : α → β) (items : List α) :
    sortedBy key (items.map change) = (sortedBy (key ∘ change) items).map change := by
  rw [sortedBy_eq_insertionSort, sortedBy_eq_insertionSort]
  exact (List.map_insertionSort _ _ change items (fun _ _ _ _ => Iff.rfl)).symm

/-- Items with distinct texts are sorted in one way only. -/
theorem sortedBy_eq_of_perm {left right : List β} (same : left.Perm right)
    (distinct : (left.map key).Nodup) : sortedBy key left = sortedBy key right := by
  have sorted : (sortedBy key left).Perm (sortedBy key right) :=
    (sortedBy_perm left).trans (same.trans (sortedBy_perm right).symm)
  refine sorted.eq_of_pairwise ?_ (sortedBy_ascending left) (sortedBy_ascending right)
  intro first second isFirst isSecond less more
  rw [mem_sortedBy] at isFirst isSecond
  exact List.inj_on_of_nodup_map distinct isFirst (same.mem_iff.mpr isSecond)
    (String.le_antisymm less more)

/-- Items that ascend by one text, on which another one depends, ascend by that one too or not. -/
theorem ascending_iff {other : β → String} {items : List β} (sorted : Ascending key items)
    (depends : ∀ left ∈ items, ∀ right ∈ items, key left = key right → other left = other right) :
    Ascending other items ↔
      ∀ left ∈ items, ∀ right ∈ items, key left ≤ key right → other left ≤ other right := by
  constructor
  · intro ascending
    induction items with
    | nil => simp
    | cons head rest ih =>
        rcases List.pairwise_cons.mp sorted with ⟨first, restSorted⟩
        rcases List.pairwise_cons.mp ascending with ⟨otherFirst, restAscending⟩
        have ofRest := ih restSorted (fun left isLeft right isRight =>
          depends left (List.mem_cons_of_mem _ isLeft) right (List.mem_cons_of_mem _ isRight))
          restAscending
        intro left isLeft right isRight less
        rcases List.mem_cons.mp isLeft with rfl | leftInRest
        · rcases List.mem_cons.mp isRight with rfl | rightInRest
          · exact String.le_refl _
          · exact otherFirst right rightInRest
        · rcases List.mem_cons.mp isRight with rfl | rightInRest
          · -- An item that is not smaller than one behind it has the same text.
            have same := String.le_antisymm less (first left leftInRest)
            exact depends left isLeft right isRight same ▸ String.le_refl _
          · exact ofRest left leftInRest right rightInRest less
  · intro agree
    exact sorted.imp_of_mem (fun isLeft isRight less => agree _ isLeft _ isRight less)

/-- Items with distinct texts are sorted into a strictly ascending order. -/
theorem pairwise_lt_sortedBy {items : List β} (distinct : (items.map key).Nodup) :
    (sortedBy key items).Pairwise (fun earlier later => key earlier < key later) := by
  have apart : (sortedBy key items).Pairwise (fun earlier later => key earlier ≠ key later) :=
    List.pairwise_map.mp (((sortedBy_perm items).map key).nodup_iff.mpr distinct)
  refine ((sortedBy_ascending items).and apart).imp ?_
  rintro earlier later ⟨notMore, different⟩
  exact String.not_le.mp (fun less => different (String.le_antisymm notMore less))

/-- In a strictly ascending order the item with the smaller text comes first. -/
theorem sublist_of_lt {items : List β} {first second : β}
    (ascends : items.Pairwise (fun earlier later => key earlier < key later))
    (firstListed : first ∈ items) (secondListed : second ∈ items) (less : key first < key second) :
    [first, second].Sublist items := by
  have antisymm : Std.Antisymm (fun earlier later : β => key earlier < key later) :=
    ⟨fun _ _ less more => absurd less (String.lt_asymm more)⟩
  have pair : [first, second].Pairwise (fun earlier later => key earlier < key later) :=
    List.pairwise_pair.mpr less
  have distinct : [first, second].Nodup := pair.imp (fun less same => by
    rw [same] at less
    exact String.lt_irrefl _ less)
  have listed : [first, second] ⊆ items := by
    rw [List.cons_subset, List.cons_subset]
    exact ⟨firstListed, secondListed, List.nil_subset items⟩
  exact List.sublist_of_subperm_of_pairwise (List.subperm_of_subset distinct listed) pair ascends

/-- Distinct texts stand in a list in the order of their indices. -/
theorem pairwise_idxOf_of_nodup {names : List String} (distinct : names.Nodup) :
    names.Pairwise (fun first second => names.idxOf first < names.idxOf second) := by
  rw [List.pairwise_iff_getElem]
  intro first second isFirst isSecond less
  rwa [distinct.idxOf_getElem, distinct.idxOf_getElem]

/-! ### Texts without repetitions -/

theorem eraseRepsLoop_append (first : String) (rest done : List String) :
    List.eraseRepsBy.loop (· == ·) first rest done =
      done.reverse ++ List.eraseRepsBy.loop (· == ·) first rest [] := by
  induction rest generalizing first done with
  | nil => simp [List.eraseRepsBy.loop]
  | cons second rest ih =>
      rw [List.eraseRepsBy.loop, List.eraseRepsBy.loop]
      split
      · exact ih first done
      · rw [ih, ih second [first], List.reverse_cons, List.append_assoc]
        rfl

/-- A text that is repeated at once is dropped. -/
theorem eraseReps_cons_cons (first second : String) (rest : List String) :
    (first :: second :: rest).eraseReps =
      if first = second then (second :: rest).eraseReps
      else first :: (second :: rest).eraseReps := by
  rw [List.eraseReps, List.eraseRepsBy, List.eraseRepsBy.loop]
  by_cases same : first = second
  · subst same
    rw [if_pos rfl, beq_self_eq_true]
    rfl
  · rw [if_neg same, beq_eq_false_iff_ne.mpr same]
    exact eraseRepsLoop_append second rest [first]

theorem mem_eraseReps {name : String} {names : List String} :
    name ∈ names.eraseReps ↔ name ∈ names := by
  induction names with
  | nil => rfl
  | cons first rest ih =>
      cases rest with
      | nil => rfl
      | cons second rest =>
          rw [eraseReps_cons_cons]
          split
          · rename_i same
            rw [ih, same]
            simp
          · rw [List.mem_cons, ih]
            exact List.mem_cons.symm

/-- Without repetitions texts that do not descend ascend strictly. -/
theorem pairwise_eraseReps {names : List String} (ascending : Ascending id names) :
    names.eraseReps.Pairwise (· < ·) := by
  induction names with
  | nil => exact List.Pairwise.nil
  | cons first rest ih =>
      rcases List.pairwise_cons.mp ascending with ⟨least, others⟩
      cases rest with
      | nil => exact List.pairwise_singleton _ _
      | cons second rest =>
          rw [eraseReps_cons_cons]
          split
          · exact ih others
          · rename_i different
            refine List.pairwise_cons.mpr ⟨fun later listed => ?_, ih others⟩
            have behind : second ≤ later := by
              rcases List.mem_cons.mp (mem_eraseReps.mp listed) with rfl | inRest
              · exact String.le_refl _
              · exact (List.pairwise_cons.mp others).1 later inRest
            have ahead : first ≤ second := least second List.mem_cons_self
            apply String.not_le.mp
            intro notMore
            exact different (String.le_antisymm ahead (String.le_trans behind notMore))

end Reconcile.Text
