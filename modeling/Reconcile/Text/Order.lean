/-!
# Order of texts

Items are put in the ascending order of a text that each of them has, by insertion. The sort is
stable: items with one text keep their order. It neither loses nor repeats items
(`sortedBy_perm`).
-/

namespace Reconcile.Text

universe u

variable {α : Type u} (key : α → String)

/-- Whether the texts of the items do not descend. -/
def Ascending (items : List α) : Prop :=
  items.Pairwise (fun earlier later => key earlier ≤ key later)

/-- Puts an item in front of the first one whose text is not smaller. -/
def insertBy (item : α) : List α → List α
  | [] => [item]
  | head :: rest => if key item ≤ key head then item :: head :: rest else head :: insertBy item rest

/-- The items in the ascending order of their texts. -/
def sortedBy : List α → List α
  | [] => []
  | item :: rest => insertBy key item (sortedBy rest)

variable {key}

theorem insertBy_perm (item : α) (items : List α) :
    (insertBy key item items).Perm (item :: items) := by
  fun_induction insertBy key item items with
  | case1 => exact .rfl
  | case2 => exact .rfl
  | case3 head rest _ ih => exact (ih.cons head).trans (.swap item head rest)

/-- Sorting neither loses nor repeats an item. -/
theorem sortedBy_perm (items : List α) : (sortedBy key items).Perm items := by
  induction items with
  | nil => exact .rfl
  | cons item rest ih => exact (insertBy_perm item _).trans (ih.cons item)

@[simp]
theorem mem_sortedBy {item : α} {items : List α} : item ∈ sortedBy key items ↔ item ∈ items :=
  (sortedBy_perm items).mem_iff

end Reconcile.Text
