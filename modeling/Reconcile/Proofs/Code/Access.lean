import Reconcile.Code.Access

/-!
# Steps along a path

An expression along a path is its start with the names of the path behind it, and the steps on the
way are the expressions along the leading parts of the path.
-/

namespace Reconcile

namespace Access

theorem text_descend (base : Access) {path : List String} (nonempty : path ≠ []) :
    (base.descend path).text = base.text ++ "." ++ ".".intercalate path := by
  induction path generalizing base with
  | nil => exact absurd rfl nonempty
  | cons name rest ih =>
      cases rest with
      | nil => simp [descend, text]
      | cons next others =>
          rw [descend, List.foldl_cons, ← descend, ih _ (List.cons_ne_nil _ _), text,
            String.intercalate_cons_cons]
          simp [String.append_assoc]

theorem along_eq (base : Access) (path : List String) :
    base.along path =
      (List.range path.length).map (fun depth => base.descend (path.take (depth + 1))) := by
  induction path generalizing base with
  | nil => rfl
  | cons name rest ih =>
      rw [along, ih, List.length_cons, List.range_succ_eq_map, List.map_cons, List.map_map]
      rfl

end Access

end Reconcile
