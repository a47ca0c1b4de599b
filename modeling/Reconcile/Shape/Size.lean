import Reconcile.Shape.Basic

/-!
# Sizes of shapes

The number of nodes of a shape. Walking into a shape ends because this number falls.
-/

namespace Reconcile.Shape

mutual

/-- The number of nodes of a shape. -/
def size : Shape → Nat
  | .scalar .. => 1
  | .struct _ members => sizeOfMembers members + 1
  | .sequence _ element => element.size + 1
  | .mapping _ _ value => value.size + 1

/-- The number of nodes of the shapes of members. -/
def sizeOfMembers : List (String × Shape) → Nat
  | [] => 0
  | (_, shape) :: rest => shape.size + sizeOfMembers rest

end

/-- The number of nodes of several shapes. -/
def totalSize : List Shape → Nat
  | [] => 0
  | shape :: rest => shape.size + totalSize rest

theorem size_pos (shape : Shape) : 0 < shape.size := by
  cases shape <;> simp [size]

@[simp]
theorem totalSize_append (left right : List Shape) :
    totalSize (left ++ right) = totalSize left + totalSize right := by
  induction left with
  | nil => simp [totalSize]
  | cons shape rest ih => simp [totalSize, ih, Nat.add_assoc]

end Reconcile.Shape
