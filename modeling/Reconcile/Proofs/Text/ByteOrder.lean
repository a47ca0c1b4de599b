import Mathlib.Data.String.Basic
import Mathlib.Tactic.SplitIfs
import Reconcile.Text.Order

/-!
# Order of bytes

Lists that are encoded item by item keep their order if the codes of two items are told apart before
either of them ends (`compareLex_flatMap`). The code of a character in UTF-8 is such a code, so that
texts are ordered like their bytes (`compareBytes_eq`).
-/

namespace Reconcile.Text

universe u v

section

variable {α : Type u} {β : Type v} {inner : β → β → Ordering}

theorem nil_compareLex {list : List β} (nonempty : list ≠ []) :
    [].compareLex inner list = .lt := by
  cases list with
  | nil => exact absurd rfl nonempty
  | cons item rest => rfl

theorem compareLex_nil {list : List β} (nonempty : list ≠ []) :
    list.compareLex inner [] = .gt := by
  cases list with
  | nil => exact absurd rfl nonempty
  | cons item rest => rfl

theorem compareLex_append_left [Std.ReflCmp inner] (front left right : List β) :
    (front ++ left).compareLex inner (front ++ right) = left.compareLex inner right := by
  induction front with
  | nil => rfl
  | cons item rest ih =>
      have same : inner item item = .eq := Std.ReflCmp.compare_self
      rw [List.cons_append, List.cons_append, List.compareLex_cons_cons, same, Ordering.eq_then, ih]

/--
Whether codes tell two items apart in the order of the items, whatever follows the codes. So no code
is the beginning of another one.
-/
def CodesPrecede (inner : β → β → Ordering) (first second : List β) : Prop :=
  ∀ behindFirst behindSecond,
    (first ++ behindFirst).compareLex inner (second ++ behindSecond) = .lt

/-- Items are ordered like their codes put together. -/
theorem compareLex_flatMap {outer : α → α → Ordering} {code : α → List β} (usual : α → Prop)
    [Std.OrientedCmp outer] [Std.LawfulEqCmp outer] [Std.OrientedCmp inner]
    (nonempty : ∀ item, code item ≠ [])
    (precede : ∀ first second, usual first → usual second → outer first second = .lt →
      CodesPrecede inner (code first) (code second))
    {left right : List α} (leftUsual : ∀ item ∈ left, usual item)
    (rightUsual : ∀ item ∈ right, usual item) :
    (left.flatMap code).compareLex inner (right.flatMap code) = left.compareLex outer right := by
  induction left generalizing right with
  | nil =>
      cases right with
      | nil => rfl
      | cons second others =>
          rw [List.flatMap_cons, List.flatMap_nil]
          exact nil_compareLex (List.append_ne_nil_of_left_ne_nil (nonempty second) _)
  | cons first others ih =>
      cases right with
      | nil =>
          rw [List.flatMap_cons, List.flatMap_nil]
          exact compareLex_nil (List.append_ne_nil_of_left_ne_nil (nonempty first) _)
      | cons second later =>
          have firstUsual := leftUsual first List.mem_cons_self
          have secondUsual := rightUsual second List.mem_cons_self
          rw [List.flatMap_cons, List.flatMap_cons, List.compareLex_cons_cons]
          cases decided : outer first second with
          | lt => exact precede first second firstUsual secondUsual decided _ _
          | gt =>
              rw [Std.OrientedCmp.gt_iff_lt] at decided
              exact Std.OrientedCmp.gt_of_lt
                (precede second first secondUsual firstUsual decided _ _)
          | eq =>
              cases Std.LawfulEqCmp.eq_of_compare decided
              rw [compareLex_append_left]
              exact ih (fun item listed => leftUsual item (List.mem_cons_of_mem _ listed))
                (fun item listed => rightUsual item (List.mem_cons_of_mem _ listed))

/-- The same item behind both lists does not matter if it is less than none of their items. -/
theorem compareLex_concat [Std.OrientedCmp inner] {least : β} {left right : List β}
    (leftMore : ∀ item ∈ left, inner item least ≠ .lt)
    (rightMore : ∀ item ∈ right, inner item least ≠ .lt) :
    (left ++ [least]).compareLex inner (right ++ [least]) = left.compareLex inner right := by
  induction left generalizing right with
  | nil =>
      cases right with
      | nil =>
          have same : inner least least = .eq := Std.ReflCmp.compare_self
          simp [List.compareLex, same]
      | cons second others =>
          rw [List.nil_append, List.cons_append, List.compareLex_cons_cons,
            List.compareLex_nil_cons]
          cases decided : inner least second with
          | lt => rfl
          | eq => cases others <;> rfl
          | gt =>
              exact absurd (Std.OrientedCmp.lt_of_gt decided) (rightMore second List.mem_cons_self)
  | cons first rest ih =>
      cases right with
      | nil =>
          rw [List.nil_append, List.cons_append, List.compareLex_cons_cons,
            List.compareLex_cons_nil]
          cases decided : inner first least with
          | lt => exact absurd decided (leftMore first List.mem_cons_self)
          | eq => cases rest <;> rfl
          | gt => rfl
      | cons second others =>
          rw [List.cons_append, List.cons_append, List.compareLex_cons_cons,
            List.compareLex_cons_cons,
            ih (fun item listed => leftMore item (List.mem_cons_of_mem _ listed))
              (fun item listed => rightMore item (List.mem_cons_of_mem _ listed))]

end

/-! ### Letters and bytes -/

theorem compareLex_eq_lt {left right : List Char} :
    left.compareLex compare right = .lt ↔ left < right := by
  induction left generalizing right with
  | nil => cases right <;> simp [List.compareLex]
  | cons first rest ih =>
      cases right with
      | nil => simp [List.compareLex]
      | cons second others =>
          rw [List.compareLex_cons_cons, Ordering.then_eq_lt, ih, List.cons_lt_cons_iff,
            Std.LawfulLTCmp.eq_lt_iff_lt, Std.LawfulEqCmp.compare_eq_iff_eq]

/-- Texts are ordered like the lists of their letters. -/
theorem compare_eq_compareLex (left right : String) :
    compare left right = left.toList.compareLex compare right.toList := by
  have less : ∀ {first second : String},
      first.toList.compareLex compare second.toList = .lt → compare first second = .lt := by
    intro first second decided
    rw [compareLex_eq_lt] at decided
    exact Std.LawfulLTCmp.eq_lt_iff_lt.mpr decided
  cases decided : left.toList.compareLex compare right.toList with
  | lt => exact less decided
  | eq =>
      cases String.toList_inj.mp (Std.LawfulEqCmp.eq_of_compare decided)
      exact Std.ReflCmp.compare_self
  | gt =>
      rw [Std.OrientedCmp.gt_iff_lt] at decided
      exact Std.OrientedCmp.gt_of_lt (less decided)

/-- The bytes of a text in UTF-8. -/
def bytes (text : String) : List UInt8 :=
  text.toByteArray.data.toList

/-- Compares texts byte by byte; a text comes before every longer one that starts with it. -/
def compareBytes (left right : String) : Ordering :=
  (bytes left).compareLex compare (bytes right)

theorem bytes_eq (text : String) : bytes text = text.toList.flatMap String.utf8EncodeChar := by
  rw [bytes, ← String.utf8Encode_toList, List.utf8Encode, List.toList_data_toByteArray]

/-- Bytes are compared as the numbers that they are. -/
theorem codesPrecede_of_lt {left right : Nat} (less : left < right) (isByte : right < 256)
    (restLeft restRight : List UInt8) :
    CodesPrecede compare (UInt8.ofNat left :: restLeft) (UInt8.ofNat right :: restRight) := by
  intro behindLeft behindRight
  have decided : compare (UInt8.ofNat left) (UInt8.ofNat right) = .lt := by
    rw [Std.compare_eq_lt, UInt8.lt_iff_toNat_lt, UInt8.toNat_ofNat_of_lt' isByte,
      UInt8.toNat_ofNat_of_lt' (Nat.lt_trans less isByte)]
    exact less
  rw [List.cons_append, List.cons_append, List.compareLex_cons_cons, decided, Ordering.lt_then]

/-- Codes are told apart by their first bytes, or else by the others. -/
theorem codesPrecede_cons {left right : Nat} {restLeft restRight : List UInt8}
    (isByte : right < 256) (notMore : left ≤ right)
    (precede : left = right → CodesPrecede compare restLeft restRight) :
    CodesPrecede compare (UInt8.ofNat left :: restLeft) (UInt8.ofNat right :: restRight) := by
  rcases Nat.lt_or_eq_of_le notMore with less | rfl
  · exact codesPrecede_of_lt less isByte restLeft restRight
  · intro behindLeft behindRight
    exact (compareLex_append_left [UInt8.ofNat left] _ _).trans
      (precede rfl behindLeft behindRight)

theorem toNat_val_lt (letter : Char) : letter.val.toNat < 1114112 := by
  rcases letter.valid with small | ⟨_, large⟩
  · exact Nat.lt_trans small (by decide)
  · exact large

/-- UTF-8 keeps the order of characters. -/
theorem codesPrecede_utf8EncodeChar {first second : Char} (less : first < second) :
    CodesPrecede compare (String.utf8EncodeChar first) (String.utf8EncodeChar second) := by
  have values : first.val.toNat < second.val.toNat := less
  have bound := toNat_val_lt second
  unfold String.utf8EncodeChar
  generalize first.val.toNat = left at values ⊢
  generalize second.val.toNat = right at values bound ⊢
  dsimp only
  -- A longer code has the greater first byte, and codes of one length are digits of the characters.
  by_cases leftOne : left ≤ 127
  · rw [if_pos leftOne]
    split_ifs <;> exact codesPrecede_of_lt (by omega) (by omega) _ _
  have rightOne : ¬right ≤ 127 := by omega
  rw [if_neg leftOne, if_neg rightOne]
  by_cases leftTwo : left ≤ 2047
  · rw [if_pos leftTwo]
    by_cases rightTwo : right ≤ 2047
    · rw [if_pos rightTwo]
      refine codesPrecede_cons (by omega) (by omega) (fun _ => ?_)
      exact codesPrecede_of_lt (by omega) (by omega) _ _
    · rw [if_neg rightTwo]
      split_ifs <;> exact codesPrecede_of_lt (by omega) (by omega) _ _
  have rightTwo : ¬right ≤ 2047 := by omega
  rw [if_neg leftTwo, if_neg rightTwo]
  by_cases leftThree : left ≤ 65535
  · rw [if_pos leftThree]
    by_cases rightThree : right ≤ 65535
    · rw [if_pos rightThree]
      refine codesPrecede_cons (by omega) (by omega) (fun _ => ?_)
      refine codesPrecede_cons (by omega) (by omega) (fun _ => ?_)
      exact codesPrecede_of_lt (by omega) (by omega) _ _
    · rw [if_neg rightThree]
      exact codesPrecede_of_lt (by omega) (by omega) _ _
  have rightThree : ¬right ≤ 65535 := by omega
  rw [if_neg leftThree, if_neg rightThree]
  refine codesPrecede_cons (by omega) (by omega) (fun _ => ?_)
  refine codesPrecede_cons (by omega) (by omega) (fun _ => ?_)
  refine codesPrecede_cons (by omega) (by omega) (fun _ => ?_)
  exact codesPrecede_of_lt (by omega) (by omega) _ _

/-- Texts are ordered like their bytes. -/
theorem compareBytes_eq (left right : String) : compareBytes left right = compare left right := by
  rw [compareBytes, bytes_eq, bytes_eq, compare_eq_compareLex]
  refine compareLex_flatMap (fun _ => True) (fun _ => String.utf8EncodeChar_ne_nil) ?_
    (fun _ _ => trivial) (fun _ _ => trivial)
  intro first second _ _ decided
  exact codesPrecede_utf8EncodeChar (Std.LawfulLTCmp.eq_lt_iff_lt.mp decided)

end Reconcile.Text
