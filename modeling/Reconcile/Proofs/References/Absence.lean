import Mathlib.Data.List.Infix
import Reconcile.Proofs.Code.Access
import Reconcile.Proofs.FieldPath.Parsing
import Reconcile.Proofs.Outcomes
import Reconcile.References.Basic

/-!
# Tests for absence

The condition under which a value of another resource is missing is made segment by segment from the
path of the value, while the value itself is copied from the text of that path. The condition tests
each leading part of the text that reaches below the root, and at last the value that is copied
(`References.absenceCheck_eq_ok`, `References.getLast?_absenceTests`).
-/

namespace Reconcile

namespace References

variable {settings : ReferenceSettings} {object check : String} {pieces : List String}

/-- The tests that the steps to a value are absent, first the one below the root. -/
def absenceTests (object : String) (pieces : List String) : List String :=
  (pieces.inits.filter (fun leading => 2 ≤ leading.length)).map (fun leading =>
    object ++ "." ++ ".".intercalate leading ++ " == nil")

theorem tail_inits (path : List String) :
    path.inits.tail = (List.range path.length).map (fun depth => path.take (depth + 1)) := by
  apply List.ext_getElem
  · simp
  · intro depth _ _
    simp [List.getElem_tail, List.getElem_inits]

theorem filter_inits_cons (root : String) (below : List String) :
    (root :: below).inits.filter (fun leading => 2 ≤ leading.length) =
      below.inits.tail.map (root :: ·) := by
  cases below with
  | nil => rfl
  | cons first rest => simp [List.filter_map, Function.comp_def]

theorem absenceChain_eq (object root : String) {below : List String} (nonempty : below ≠ []) :
    Access.absenceChain (.member (.root object) root) below =
      " || ".intercalate (absenceTests object (root :: below)) := by
  rw [Access.absenceChain, Access.along_eq, absenceTests, filter_inits_cons, tail_inits,
    List.map_map, List.map_map, List.map_map]
  congr 1
  apply List.map_congr_left
  intro depth _
  have leading : below.take (depth + 1) ≠ [] := by simp [nonempty]
  rcases List.exists_cons_of_ne_nil leading with ⟨first, rest, isLeading⟩
  simp only [Function.comp_apply, Access.isAbsent]
  rw [Access.text_descend _ leading, isLeading, String.intercalate_cons_cons]
  simp only [Access.text, String.append_assoc]

/-- There is a condition if the path can be read and has a segment below its root. -/
theorem absenceCheck_eq_ok : settings.absenceCheck object = .ok check ↔
    ∃ pieces, Text.IsCutAtDots settings.path pieces ∧ 2 ≤ pieces.length ∧ "" ∉ pieces ∧
      check = " || ".intercalate (absenceTests object pieces) := by
  constructor
  · intro located
    rcases Outcome.of_bind_eq_ok located with ⟨⟨segments⟩, parsed, located⟩
    rcases FieldPath.parse_eq_ok.mp (Outcome.of_mapError_eq_ok parsed) with ⟨isCut, full⟩
    refine ⟨segments, isCut, ?_⟩
    rcases segments with _ | ⟨root, _ | ⟨first, rest⟩⟩
    · cases located
    · cases located
    · cases located
      exact ⟨Nat.le_add_left 2 rest.length, full, absenceChain_eq object root (List.cons_ne_nil _ _)⟩
  · rintro ⟨pieces, isCut, deep, full, rfl⟩
    have parsed : FieldPath.parse settings.path = .ok ⟨pieces⟩ :=
      FieldPath.parse_eq_ok.mpr ⟨isCut, full⟩
    rw [ReferenceSettings.absenceCheck, parsed]
    rcases pieces with _ | ⟨root, _ | ⟨first, rest⟩⟩
    · exact absurd deep (by simp)
    · exact absurd deep (by simp)
    · rw [← absenceChain_eq _ _ (List.cons_ne_nil _ _)]
      rfl

theorem exists_absenceCheck_eq_ok : (∃ check, settings.absenceCheck object = .ok check) ↔
    ∃ pieces, Text.IsCutAtDots settings.path pieces ∧ 2 ≤ pieces.length ∧ "" ∉ pieces := by
  constructor
  · rintro ⟨check, located⟩
    rcases absenceCheck_eq_ok.mp located with ⟨pieces, isCut, deep, full, _⟩
    exact ⟨pieces, isCut, deep, full⟩
  · rintro ⟨pieces, isCut, deep, full⟩
    exact ⟨_, absenceCheck_eq_ok.mpr ⟨pieces, isCut, deep, full, rfl⟩⟩

/-- The last test is that of the value itself. -/
theorem getLast?_absenceTests (isCut : Text.IsCutAtDots settings.path pieces)
    (deep : 2 ≤ pieces.length) : (absenceTests object pieces).getLast? =
      some (object ++ "." ++ settings.path ++ " == nil") := by
  rw [← isCut.joined]
  rcases List.eq_nil_or_concat' pieces with rfl | ⟨front, last, rfl⟩
  · exact absurd deep (by decide)
  · have isLast : (front ++ [last]).inits = front.inits ++ [front ++ [last]] := by
      simp [List.inits_append]
    rw [absenceTests, isLast, List.filter_append, List.filter_cons_of_pos (by simpa using deep)]
    simp

end References

end Reconcile
