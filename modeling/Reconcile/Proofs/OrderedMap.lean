import Mathlib.Data.List.Nodup
import Mathlib.Data.List.Perm.Subperm
import Reconcile.OrderedMap

/-!
# Entries of ordered maps

What holding an entry means: each name has one value, which look-ups find, and entering values
keeps what was there in its place. Maps are equal up to the order of their entries exactly if they
agree on all look-ups (`OrderedMap.beq_iff`).
-/

namespace Reconcile

namespace Entries

variable {α : Type}

theorem mem_of_mem_insert {name : String} {value : α} {entries : Entries α} {entry : String × α}
    (membership : entry ∈ insert name value entries) :
    entry = (name, value) ∨ entry ∈ entries := by
  induction entries with
  | nil => simpa [insert] using membership
  | cons first rest ih =>
      rcases first with ⟨other, kept⟩
      rw [insert] at membership
      split at membership
      · rcases List.mem_cons.mp membership with same | inRest
        · exact Or.inl same
        · exact Or.inr (List.mem_cons_of_mem _ inRest)
      · rcases List.mem_cons.mp membership with same | inRest
        · exact Or.inr (same ▸ List.mem_cons_self)
        · exact (ih inRest).imp_right (List.mem_cons_of_mem _)

theorem insert_of_not_mem {name : String} {value : α} {entries : Entries α}
    (fresh : name ∉ keys entries) : insert name value entries = entries ++ [(name, value)] := by
  induction entries with
  | nil => rfl
  | cons first rest ih =>
      rcases first with ⟨other, kept⟩
      rw [keys_cons, List.mem_cons, not_or] at fresh
      rw [insert, if_neg (Ne.symm fresh.1), ih fresh.2, List.cons_append]

@[simp]
theorem keys_append (left right : Entries α) :
    keys (left ++ right) = keys left ++ keys right := by
  simp [keys]

end Entries

namespace OrderedMap

variable {α : Type}

theorem mem_of_mem_insertAll {map : OrderedMap α} {entries : Entries α} {entry : String × α}
    (membership : entry ∈ (map.insertAll entries).entries) :
    entry ∈ map.entries ∨ entry ∈ entries := by
  induction entries generalizing map with
  | nil => exact Or.inl membership
  | cons first rest ih =>
      rcases ih membership with inMap | inRest
      · rcases Entries.mem_of_mem_insert inMap with same | inOld
        · exact Or.inr (same ▸ List.mem_cons_self)
        · exact Or.inl inOld
      · exact Or.inr (List.mem_cons_of_mem _ inRest)

theorem eq_of_mem {map : OrderedMap α} {name : String} {left right : α}
    (leftMem : (name, left) ∈ map.entries) (rightMem : (name, right) ∈ map.entries) :
    left = right := by
  have distinct := map.nodup_keys
  generalize map.entries = entries at *
  induction entries with
  | nil => exact absurd leftMem List.not_mem_nil
  | cons first rest ih =>
      rw [Entries.keys_cons, List.nodup_cons] at distinct
      have inKeys : ∀ value, (name, value) ∈ rest → name ∈ Entries.keys rest :=
        fun value membership => List.mem_map_of_mem membership
      rcases List.mem_cons.mp leftMem with rfl | leftRest
      · rcases List.mem_cons.mp rightMem with same | rightRest
        · exact (Prod.mk.inj same).2.symm
        · exact absurd (inKeys right rightRest) distinct.1
      · rcases List.mem_cons.mp rightMem with rfl | rightRest
        · exact absurd (inKeys left leftRest) distinct.1
        · exact ih leftRest rightRest distinct.2

/-- Entries with new and distinct names are added at the end. -/
theorem entries_insertAll {map : OrderedMap α} {entries : Entries α}
    (distinct : (map.keys ++ entries.keys).Nodup) :
    (map.insertAll entries).entries = map.entries ++ entries := by
  induction entries generalizing map with
  | nil => simp [insertAll]
  | cons first rest ih =>
      rcases first with ⟨name, value⟩
      have fresh : name ∉ map.entries.keys := by
        intro known
        exact (List.nodup_append.mp distinct).2.2 name known name List.mem_cons_self rfl
      have added : (map.insert name value).entries = map.entries ++ [(name, value)] := by
        rw [entries_insert, Entries.insert_of_not_mem fresh]
      have later : ((map.insert name value).keys ++ Entries.keys rest).Nodup := by
        rw [keys, added, Entries.keys_append, List.append_assoc]
        exact distinct
      have same := ih later
      rw [added, List.append_assoc] at same
      exact same

theorem entries_ofList {entries : Entries α} (distinct : entries.keys.Nodup) :
    (ofList entries).entries = entries :=
  entries_insertAll (by simpa [keys, Entries.keys] using distinct)

theorem get?_of_mem {map : OrderedMap α} {name : String} {value : α}
    (listed : (name, value) ∈ map.entries) : map.get? name = some value := by
  cases found : map.entries.lookup? name with
  | none =>
      rw [Entries.lookup?, List.find?_eq_none] at found
      exact absurd (found _ listed) (by simp)
  | some entry =>
      rcases entry with ⟨other, kept⟩
      have isEntry := List.mem_of_find?_eq_some found
      have same : other = name := by simpa using List.find?_some found
      subst same
      rw [get?, found, Option.map_some, eq_of_mem isEntry listed]

theorem mem_of_get? {map : OrderedMap α} {name : String} {value : α}
    (found : map.get? name = some value) : (name, value) ∈ map.entries := by
  rcases Option.map_eq_some_iff.mp found with ⟨⟨other, kept⟩, isFound, rfl⟩
  have isEntry := List.mem_of_find?_eq_some isFound
  have same : other = name := by simpa using List.find?_some isFound
  rwa [same] at isEntry

theorem mem_entries {map : OrderedMap α} {name : String} {value : α} :
    (name, value) ∈ map.entries ↔ map.get? name = some value :=
  ⟨get?_of_mem, mem_of_get?⟩

theorem contains_iff {map : OrderedMap α} {name : String} :
    map.contains name = true ↔ name ∈ map.keys := by
  rw [contains, Option.isSome_iff_exists]
  constructor
  · rintro ⟨value, found⟩
    exact List.mem_map_of_mem (mem_of_get? found)
  · intro isKey
    rcases List.mem_map.mp isKey with ⟨entry, isEntry, rfl⟩
    exact ⟨entry.2, get?_of_mem isEntry⟩

theorem mem_keys_insertAll {map : OrderedMap α} {entries : Entries α} {name : String} :
    name ∈ (map.insertAll entries).keys ↔ name ∈ map.keys ∨ name ∈ entries.keys := by
  induction entries generalizing map with
  | nil => simp [insertAll]
  | cons entry rest ih =>
      have inserted : name ∈ (map.insert entry.1 entry.2).keys ↔
          name ∈ map.keys ∨ name = entry.1 := by
        rw [keys, entries_insert, Entries.keys_insert, ← keys]
        split
        · rename_i isKey
          exact ⟨Or.inl, fun either => either.elim id (fun same => same ▸ isKey)⟩
        · rw [List.mem_append, List.mem_singleton]
      rw [insertAll, List.foldl_cons, ← insertAll, ih, inserted, Entries.keys_cons, List.mem_cons,
        or_assoc]

/-! ### Equality up to order -/

section

variable {left right : OrderedMap α}

theorem eq_of_entries (same : left.entries = right.entries) : left = right := by
  cases left
  cases right
  cases same
  rfl

theorem length_keys (map : OrderedMap α) : map.keys.length = map.size :=
  List.length_map _

theorem get?_eq_none {map : OrderedMap α} {name : String} :
    map.get? name = none ↔ name ∉ map.keys := by
  rw [← contains_iff, contains, Bool.not_eq_true, Option.isSome_eq_false_iff,
    Option.isNone_iff_eq_none]

/--
Maps agree on all look-ups if they are of one size and one of them has all entries of the other:
since no name occurs twice, there is no room for a further name.
-/
theorem get?_eq_iff : (∀ name, left.get? name = right.get? name) ↔
    left.size = right.size ∧ ∀ entry ∈ left.entries, right.get? entry.1 = some entry.2 := by
  constructor
  · intro same
    have shared : ∀ name, name ∈ left.keys ↔ name ∈ right.keys := by
      intro name
      rw [← contains_iff, ← contains_iff, contains, contains, same]
    have keys : left.keys.Perm right.keys :=
      (List.perm_ext_iff_of_nodup left.nodup_keys right.nodup_keys).mpr shared
    refine ⟨by rw [← length_keys, ← length_keys, keys.length_eq], ?_⟩
    intro entry listed
    rw [← same]
    exact get?_of_mem listed
  · rintro ⟨sizes, within⟩ name
    have subset : left.keys ⊆ right.keys := by
      intro key isKey
      rcases List.mem_map.mp isKey with ⟨entry, listed, rfl⟩
      exact List.mem_map_of_mem (mem_of_get? (within entry listed))
    have lengths : right.keys.length ≤ left.keys.length :=
      Nat.le_of_eq (by rw [length_keys, length_keys, sizes])
    have keys : left.keys.Perm right.keys :=
      (List.Nodup.subperm left.nodup_keys subset).perm_of_length_le lengths
    cases found : left.get? name with
    | none =>
        rw [get?_eq_none, keys.mem_iff, ← get?_eq_none] at found
        rw [found]
    | some value => rw [within (name, value) (mem_of_get? found)]

theorem beq_iff [BEq α] [LawfulBEq α] :
    (left == right) = true ↔ ∀ name, left.get? name = right.get? name := by
  rw [get?_eq_iff]
  change (left.size == right.size && left.entries.all (fun entry =>
    (right.get? entry.1).any (· == entry.2))) = true ↔ _
  rw [Bool.and_eq_true, beq_iff_eq, List.all_eq_true]
  simp only [Option.any_eq_true, beq_iff_eq, exists_eq_right]

/-- The order of the entries does not matter to look-ups. -/
theorem get?_eq_of_perm (same : left.entries.Perm right.entries) (name : String) :
    left.get? name = right.get? name :=
  get?_eq_iff.mpr ⟨same.length_eq, fun _ listed => get?_of_mem (same.mem_iff.mp listed)⟩ name

end

end OrderedMap

end Reconcile
